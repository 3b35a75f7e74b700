/-
Module: Plumego.Lib.Traversal
Purpose: Depth-first search for a node in a graph that is given by the successors of each node, and
  that it finds the node exactly if there is a path; graphs without cycles, and what may be added to
  them.
Trusted boundary: none
Main exports: pathSearch, Reaches, Answers, pathSearch_spec, Acyclic, acyclic_update_iff
-/
import Mathlib.Data.List.Basic
import Mathlib.Logic.Function.Basic
import Mathlib.Logic.Relation

namespace Plumego.Lib.Traversal

open Relation

variable {Node : Type} [DecidableEq Node] (next : Node → List Node)

/-- Search for a node, with the nodes visited before. The search ends where the node is found; there
is no answer where calls are nested beyond a given depth. -/
def pathSearch (target : Node) : Nat → Node → List Node → Option (Bool × List Node)
  | 0, _, _ => none
  | depth + 1, current, visited =>
    if current = target then some (true, visited)
    else if current ∈ visited then some (false, visited)
    else
      (next current).foldlM (fun (found, visited) following =>
        if found then some (found, visited)
        else pathSearch target depth following visited) (false, current :: visited)

/-- One node after the other, until the node is found. -/
def searchAll (target : Node) (depth : Nat) (found : Bool) (nodes visited : List Node) :
    Option (Bool × List Node) :=
  nodes.foldlM (fun (found, visited) following =>
    if found then some (found, visited)
    else pathSearch next target depth following visited) (found, visited)

/-- There is a path from a node to another. -/
def Reaches (start : Node) : Node → Prop :=
  ReflTransGen (fun node following => following ∈ next node) start

variable {next} {target node current : Node} {depth : Nat} {nodes visited inside : List Node}

theorem pathSearch_succ (different : current ≠ target) (fresh : current ∉ visited) :
    pathSearch next target (depth + 1) current visited =
      searchAll next target depth false (next current) (current :: visited) := by
  rw [pathSearch, if_neg different, if_neg fresh, searchAll]

theorem searchAll_found (nodes : List Node) :
    searchAll next target depth true nodes visited = some (true, visited) := by
  induction nodes with
  | nil => rfl
  | cons node nodes ih =>
    rw [searchAll, List.foldlM_cons]
    exact ih

theorem searchAll_cons {found : Bool} {after : List Node}
    (here : pathSearch next target depth node visited = some (found, after)) :
    searchAll next target depth false (node :: nodes) visited =
      searchAll next target depth found nodes after := by
  rw [searchAll, List.foldlM_cons]
  simp only [Bool.false_eq_true, if_false, here]
  rfl

/-! ## What is found -/

/-- After a search without success: nothing visited is lost, and each node that is new is not the
one searched for and has its successors among those visited. -/
structure Exhausted (next : Node → List Node) (target : Node) (before after : List Node) : Prop where
  kept : before ⊆ after
  closed : ∀ node ∈ after, node ∉ before → node ≠ target ∧ next node ⊆ after

omit [DecidableEq Node] in
theorem Exhausted.refl (visited : List Node) : Exhausted next target visited visited where
  kept := List.Subset.refl visited
  closed := fun _ member fresh => absurd member fresh

theorem Exhausted.trans {first second third : List Node} (one : Exhausted next target first second)
    (two : Exhausted next target second third) : Exhausted next target first third where
  kept := List.Subset.trans one.kept two.kept
  closed := by
    intro node member fresh
    by_cases early : node ∈ second
    · obtain ⟨different, inner⟩ := one.closed node early fresh
      exact ⟨different, List.Subset.trans inner two.kept⟩
    · exact two.closed node member early

theorem countP_fresh_lt (member : node ∈ inside) (fresh : node ∉ visited) :
    inside.countP (· ∉ node :: visited) < inside.countP (· ∉ visited) := by
  induction inside with
  | nil => cases member
  | cons first inside ih =>
    have fewer : inside.countP (· ∉ node :: visited) ≤ inside.countP (· ∉ visited) := by
      apply List.countP_mono_left
      intro other _ unmet
      simp only [List.mem_cons, not_or, decide_eq_true_eq] at unmet ⊢
      exact unmet.2
    rw [List.countP_cons, List.countP_cons]
    rcases List.mem_cons.mp member with rfl | later
    · have met : node ∈ node :: visited := List.mem_cons_self
      simp only [met, not_true_eq_false, decide_false, fresh, not_false_eq_true, decide_true,
        Bool.false_eq_true, if_false, if_true]
      omega
    · have less := ih later
      by_cases unmet : first ∈ node :: visited
      · simp only [unmet, not_true_eq_false, decide_false, Bool.false_eq_true, if_false]
        omega
      · have unmetBefore : first ∉ visited := fun known => unmet (List.mem_cons_of_mem node known)
        simp only [unmet, unmetBefore, not_false_eq_true, decide_true, if_true]
        omega

theorem countP_fresh_le (inside : List Node) {before after : List Node} (subset : before ⊆ after) :
    inside.countP (· ∉ after) ≤ inside.countP (· ∉ before) := by
  apply List.countP_mono_left
  intro other _ unmet
  simp only [decide_eq_true_eq] at unmet ⊢
  exact fun member => unmet (subset member)

/-- The answer to a search from some nodes: there is a path, or all that can be reached is visited. -/
inductive Answers (next : Node → List Node) (target : Node) (starts visited : List Node) :
    Bool × List Node → Prop where
  | found {after : List Node} (path : ∃ node ∈ starts, Reaches next node target) :
    Answers next target starts visited (true, after)
  | missed {after : List Node} (met : starts ⊆ after) (rest : Exhausted next target visited after) :
    Answers next target starts visited (false, after)

theorem answers_searchAll (enough : inside.countP (· ∉ visited) < depth)
    (searches : ∀ {node visited}, inside.countP (· ∉ visited) < depth →
      ∃ result, pathSearch next target depth node visited = some result ∧
        Answers next target [node] visited result) :
    ∃ result, searchAll next target depth false nodes visited = some result ∧
      Answers next target nodes visited result := by
  induction nodes generalizing visited with
  | nil => exact ⟨_, rfl, .missed (List.nil_subset _) (Exhausted.refl visited)⟩
  | cons node nodes ih =>
    obtain ⟨_, here, answer⟩ := searches enough
    rcases answer with ⟨_, among, path⟩ | ⟨met, first⟩
    · exact ⟨_, (searchAll_cons here).trans (searchAll_found nodes), .found ⟨node, List.mem_cons_self,
        List.mem_singleton.mp among ▸ path⟩⟩
    · obtain ⟨result, later, answer⟩ :=
        ih (Nat.lt_of_le_of_lt (countP_fresh_le inside first.kept) enough)
      refine ⟨result, (searchAll_cons here).trans later, ?_⟩
      rcases answer with ⟨other, among, path⟩ | ⟨subset, rest⟩
      · exact .found ⟨other, List.mem_cons_of_mem node among, path⟩
      · exact .missed (List.cons_subset.mpr ⟨rest.kept (met List.mem_cons_self), subset⟩)
          (first.trans rest)

/-- There is an answer, if the depth exceeds the number of nodes with successors that were not
visited before. -/
theorem answers_pathSearch (inner : ∀ node, next node ≠ [] → node ∈ inside)
    (enough : inside.countP (· ∉ visited) < depth) :
    ∃ result, pathSearch next target depth current visited = some result ∧
      Answers next target [current] visited result := by
  induction depth generalizing current visited with
  | zero => exact absurd enough (Nat.not_lt_zero _)
  | succ depth ih =>
    by_cases same : current = target
    · exact ⟨_, by rw [pathSearch, if_pos same],
        .found ⟨current, List.mem_cons_self, same ▸ ReflTransGen.refl⟩⟩
    · by_cases known : current ∈ visited
      · exact ⟨_, by rw [pathSearch, if_neg same, if_pos known],
          .missed (List.cons_subset.mpr ⟨known, List.nil_subset _⟩) (Exhausted.refl visited)⟩
      · rw [pathSearch_succ same known]
        have all : ∃ result,
            searchAll next target depth false (next current) (current :: visited) = some result ∧
              Answers next target (next current) (current :: visited) result := by
          by_cases last : next current = []
          · rw [last]
            exact ⟨_, rfl, .missed (List.nil_subset _) (Exhausted.refl _)⟩
          · have less := countP_fresh_lt (inner current last) known
            exact answers_searchAll (by omega) ih
        obtain ⟨result, searched, answer⟩ := all
        refine ⟨result, searched, ?_⟩
        rcases answer with ⟨following, among, path⟩ | ⟨subset, rest⟩
        · exact .found ⟨current, List.mem_cons_self, ReflTransGen.head among path⟩
        · refine .missed (List.cons_subset.mpr ⟨rest.kept List.mem_cons_self, List.nil_subset _⟩)
            ⟨fun _ member => rest.kept (List.mem_cons_of_mem _ member), fun node member fresh => ?_⟩
          by_cases self : node = current
          · rw [self]
            exact ⟨same, subset⟩
          · exact rest.closed node member (by simp [self, fresh])

/-- With depth enough there is an answer, and the node is found exactly if there is a path to it. -/
theorem pathSearch_spec (inner : ∀ node, next node ≠ [] → node ∈ inside)
    (enough : inside.length < depth) :
    ∃ found visited, pathSearch next target depth current [] = some (found, visited) ∧
      (found = true ↔ Reaches next current target) := by
  have few : inside.countP (· ∉ ([] : List Node)) < depth :=
    Nat.lt_of_le_of_lt List.countP_le_length enough
  obtain ⟨_, searched, answer⟩ := answers_pathSearch inner few
  rcases answer with ⟨_, among, path⟩ | @⟨after, met, exhausted⟩
  · exact ⟨true, _, searched, fun _ => List.mem_singleton.mp among ▸ path, fun _ => rfl⟩
  · refine ⟨false, _, searched, fun found => absurd found Bool.false_ne_true, fun path => ?_⟩
    have everywhere : ∀ node, Reaches next current node → node ∈ after := by
      intro node path
      induction path with
      | refl => exact met List.mem_cons_self
      | tail _ following ih => exact (exhausted.closed _ ih List.not_mem_nil).2 following
    exact absurd rfl (exhausted.closed target (everywhere target path) List.not_mem_nil).1

/-! ## Cycles -/

/-- No node is on a path from itself to itself. -/
def Acyclic (next : Node → List Node) : Prop :=
  ∀ node, ¬ TransGen (fun node following => following ∈ next node) node node

omit [DecidableEq Node] in
/-- A graph whose steps go down has no cycles. -/
theorem acyclic_of_rank (rank : Node → Nat)
    (down : ∀ node following, following ∈ next node → rank following < rank node) : Acyclic next := by
  have less : ∀ {start finish}, TransGen (fun node following => following ∈ next node) start finish →
      rank finish < rank start := by
    intro start finish path
    induction path with
    | single step => exact down _ _ step
    | tail _ step ih => exact Nat.lt_trans (down _ _ step) ih
  exact fun node cycle => Nat.lt_irrefl _ (less cycle)

variable {other : Node → List Node}

/-- A path to a node does not use what follows that node. -/
theorem reaches_of_same_elsewhere (same : ∀ start, start ≠ node → other start = next start)
    {start : Node} (path : Reaches other start node) : Reaches next start node := by
  induction path using ReflTransGen.head_induction_on with
  | refl => exact ReflTransGen.refl
  | head step later ih =>
    rename_i first second
    by_cases self : first = node
    · rw [self]
      exact ReflTransGen.refl
    · rw [same first self] at step
      exact ReflTransGen.head step ih

/-- With more successors of one node, a path is an old one, or it goes over one that was added. -/
theorem transGen_of_added {kept added : List Node} (old : kept ⊆ next node)
    (same : ∀ start, start ≠ node → other start = next start) (here : other node = kept ++ added)
    {start finish : Node} (path : TransGen (fun node following => following ∈ other node) start finish) :
    TransGen (fun node following => following ∈ next node) start finish ∨
      (Reaches other start node ∧ ∃ following ∈ added, Reaches other following finish) := by
  have steps : ∀ {first second}, second ∈ other first →
      second ∈ next first ∨ first = node ∧ second ∈ added := by
    intro first second step
    by_cases self : first = node
    · rw [self, here, List.mem_append] at step
      rcases step with before | new
      · exact .inl (self ▸ old before)
      · exact .inr ⟨self, new⟩
    · rw [same first self] at step
      exact .inl step
  induction path with
  | single step =>
    rcases steps step with before | ⟨rfl, new⟩
    · exact .inl (TransGen.single before)
    · exact .inr ⟨ReflTransGen.refl, _, new, ReflTransGen.refl⟩
  | tail path step ih =>
    rcases steps step with before | ⟨rfl, new⟩
    · rcases ih with oldPath | ⟨toNode, following, new, after⟩
      · exact .inl (oldPath.tail before)
      · exact .inr ⟨toNode, following, new, after.tail step⟩
    · exact .inr ⟨path.to_reflTransGen, _, new, ReflTransGen.refl⟩

/-- Nodes may be added to some successors of a node, in place of all of them, exactly if none of them
leads back to it. -/
theorem acyclic_update_iff (acyclic : Acyclic next) {kept added : List Node} (old : kept ⊆ next node) :
    Acyclic (Function.update next node (kept ++ added)) ↔
      ∀ following ∈ added, ¬ Reaches next following node := by
  have same : ∀ start, start ≠ node → Function.update next node (kept ++ added) start = next start :=
    fun start different => Function.update_of_ne different _ _
  have here : Function.update next node (kept ++ added) node = kept ++ added :=
    Function.update_self ..
  constructor
  · intro stays following new path
    have back := reaches_of_same_elsewhere (fun start different => (same start different).symm) path
    apply stays node
    refine TransGen.head' ?_ back
    rw [here]
    exact List.mem_append_right kept new
  · intro away start cycle
    rcases transGen_of_added old same here cycle with oldCycle | ⟨toNode, following, new, after⟩
    · exact acyclic start oldCycle
    · exact away following new (reaches_of_same_elsewhere same (after.trans toNode))

end Plumego.Lib.Traversal
