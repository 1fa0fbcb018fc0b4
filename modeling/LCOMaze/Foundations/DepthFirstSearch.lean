import LCOMaze.Foundations.GrowingTree

/-!
# Depth-first search and its trees

A depth-first search keeps its opened edges, the discovered vertices and a stack.  It may
open an edge from the top of the stack to any fresh neighbour, and it pops the top when no
neighbour of it is fresh.

Main results:

- Theorem {lit}`Dfs.Descends.step`: the stack is always a simple path from the root, and
  neighbours that are both discovered are ancestor and descendant.
- Theorem {lit}`Dfs.Descends.isSearchTree`: what remains when the stack is empty is a
  spanning tree without cross edges.
- Theorem {lit}`IsSearchTree.exists_fresh_child`: as long as the top of the stack has a fresh
  neighbour, any such tree around the search offers it a fresh child.
- Theorem {lit}`Dfs.Descends.exists_step`: so a search can be steered to build that tree.
-/

namespace Foundations

variable {V : Type*} {B T T' : SimpleGraph V} {root u v w : V}

/-! ## Ancestors -/

/-- {lit}`u` lies on a simple path from the root to {lit}`v`. -/
def Ancestor (T : SimpleGraph V) (root u v : V) : Prop :=
  ∃ walk : T.Walk root v, walk.IsPath ∧ u ∈ walk.support

/-- More edges keep the ancestors. -/
theorem Ancestor.mono (hle : T ≤ T') (h : Ancestor T root u v) : Ancestor T' root u v := by
  rcases h with ⟨walk, hwalk, hmem⟩
  refine ⟨walk.mapLe hle, hwalk.mapLe hle, ?_⟩
  rw [SimpleGraph.Walk.support_mapLe_eq_support]
  exact hmem

/-- A spanning tree of {lit}`B` all of whose missing edges join an ancestor and a descendant. -/
structure IsSearchTree (B T : SimpleGraph V) (root : V) : Prop where
  le : T ≤ B
  isTree : T.IsTree
  comparable : ∀ u v, B.Adj u v → ¬T.Adj u v → Ancestor T root u v ∨ Ancestor T root v u

/-! ## Stacks -/

/-- The stack, top first, is a simple path back to the root. -/
inductive StackPath (T : SimpleGraph V) (root : V) : List V → Prop
  | nil : StackPath T root []
  | root : StackPath T root [root]
  | push {top fresh : V} {rest : List V} : StackPath T root (top :: rest) → T.Adj top fresh →
      fresh ∉ top :: rest → StackPath T root (fresh :: top :: rest)

namespace StackPath

theorem pop {rest : List V} (h : StackPath T root (v :: rest)) : StackPath T root rest := by
  cases h with
  | root => exact .nil
  | push h _ _ => exact h

theorem mono (hle : T ≤ T') {stack : List V} (h : StackPath T root stack) :
    StackPath T' root stack := by
  induction h with
  | nil => exact .nil
  | root => exact .root
  | push _ hadj hfresh ih => exact .push ih (hle hadj) hfresh

/-- No vertex is on the stack twice. -/
theorem nodup {stack : List V} (h : StackPath T root stack) : stack.Nodup := by
  induction h with
  | nil => exact List.nodup_nil
  | root => exact List.nodup_singleton root
  | push _ _ hfresh ih => exact List.nodup_cons.mpr ⟨hfresh, ih⟩

/-- From bottom to top, the stack follows edges. -/
theorem isChain_reverse {stack : List V} (h : StackPath T root stack) :
    stack.reverse.IsChain T.Adj := by
  rw [List.isChain_reverse]
  induction h with
  | nil => exact .nil
  | root => exact .singleton root
  | push _ hadj _ ih => exact .cons_cons hadj ih

/-- At the bottom of the stack is the root. -/
theorem head_reverse {stack : List V} (h : StackPath T root stack) (hne : stack ≠ []) :
    stack.reverse.head? = some root := by
  rw [List.head?_reverse]
  induction h with
  | nil => exact absurd rfl hne
  | root => rfl
  | push _ _ _ ih =>
      rw [List.getLast?_cons_cons]
      exact ih (List.cons_ne_nil _ _)

/-- The vertices of a nonempty stack are those of a simple path from the root to its top. -/
theorem exists_path {rest : List V} (h : StackPath T root (v :: rest)) :
    ∃ walk : T.Walk root v, walk.IsPath ∧ ∀ u, u ∈ walk.support ↔ u ∈ v :: rest := by
  generalize hstack : v :: rest = stack at h
  induction h generalizing v rest with
  | nil => cases hstack
  | root =>
      cases hstack
      exact ⟨.nil, .nil, by simp⟩
  | @push top fresh below _ hadj hfresh ih =>
      cases hstack
      rcases ih rfl with ⟨walk, hwalk, hmem⟩
      refine ⟨walk.concat hadj, hwalk.concat (by rwa [hmem]) hadj, fun u => ?_⟩
      rw [SimpleGraph.Walk.support_concat, List.mem_append, List.mem_singleton, hmem, or_comm,
        ← List.mem_cons]

/-- Every vertex of the stack is an ancestor of its top. -/
theorem ancestor {rest : List V} (h : StackPath T root (v :: rest)) (hu : u ∈ v :: rest) :
    Ancestor T root u v := by
  rcases h.exists_path with ⟨walk, hwalk, hmem⟩
  exact ⟨walk, hwalk, (hmem u).mpr hu⟩

/-- In a tree every simple path to the top runs through the vertices of the stack. -/
theorem mem_support_iff (hT : T.IsAcyclic) {rest : List V} (h : StackPath T root (v :: rest))
    {walk : T.Walk root v} (hwalk : walk.IsPath) : u ∈ walk.support ↔ u ∈ v :: rest := by
  rcases h.exists_path with ⟨other, hother, hmem⟩
  have heq : (⟨walk, hwalk⟩ : T.Path root v) = ⟨other, hother⟩ :=
    (hT.subsingleton_path root v).elim _ _
  have hsame : walk = other := congrArg Subtype.val heq
  rw [hsame, hmem]

end StackPath

/-- While the top of the stack has a fresh neighbour, a search tree around the stack has a
fresh child for it. -/
theorem IsSearchTree.exists_fresh_child (hT : IsSearchTree B T root) {seen : Set V}
    {rest : List V} (hpath : StackPath T root (v :: rest)) (hstacked : ∀ u ∈ v :: rest, u ∈ seen)
    (hexplored : ∀ u ∈ seen, u ∉ v :: rest → ∀ w, B.Adj u w → w ∈ seen)
    (hadj : B.Adj v w) (hw : w ∉ seen) : ∃ child ∉ seen, T.Adj v child := by
  by_cases hvw : T.Adj v w
  · exact ⟨w, hw, hvw⟩
  rcases hT.comparable v w hadj hvw with hbelow | habove
  · -- the path to `w` passes through the top and leaves the discovered vertices behind it
    rcases hbelow with ⟨walk, hwalk, hmem⟩
    rcases hwalk.mem_support_iff_exists_append.mp hmem with ⟨before, after, hbefore, -, rfl⟩
    rcases after.exists_boundary_dart seen (hstacked v List.mem_cons_self) hw with
      ⟨dart, hdart, hfst, hsnd⟩
    have hstack : dart.fst ∈ v :: rest := by
      by_contra hnot
      exact hsnd (hexplored dart.fst hfst hnot dart.snd (hT.le dart.adj))
    have htop : dart.fst = v := by
      by_contra hne
      have hleft := (hpath.mem_support_iff hT.isTree.isAcyclic hbefore).mpr hstack
      have hright := after.dart_fst_mem_support_of_mem_darts hdart
      exact hwalk.ne_of_mem_support_of_append hne hleft hright rfl
    exact ⟨dart.snd, hsnd, htop ▸ dart.adj⟩
  · rcases habove with ⟨walk, hwalk, hmem⟩
    have hstack := (hpath.mem_support_iff hT.isTree.isAcyclic hwalk).mp hmem
    exact absurd (hstacked w hstack) hw

/-! ## The search -/

/-- The opened edges, the discovered vertices and the stack. -/
@[ext]
structure Dfs (V : Type*) where
  tree : SimpleGraph V
  seen : Set V
  stack : List V

namespace Dfs

/-- Only the root is discovered. -/
def init (root : V) : Dfs V := ⟨⊥, {root}, [root]⟩

/-- The two moves of a depth-first search. -/
inductive Step (B : SimpleGraph V) (s t : Dfs V) : Prop
  | backtrack (top : V) (rest : List V) (hstack : s.stack = top :: rest)
      (hdone : ∀ w, B.Adj top w → w ∈ s.seen)
      (htree : t.tree = s.tree) (hseen : t.seen = s.seen) (hrest : t.stack = rest)
  | extend (top fresh : V) (rest : List V) (hstack : s.stack = top :: rest)
      (hadj : B.Adj top fresh) (hfresh : fresh ∉ s.seen)
      (htree : t.tree = s.tree ⊔ SimpleGraph.edge top fresh)
      (hseen : t.seen = insert fresh s.seen) (hrest : t.stack = fresh :: top :: rest)

/-- The opened edges are a tree on the discovered vertices, and those that have left the
stack have no fresh neighbour. -/
structure Explores (B : SimpleGraph V) (root : V) (s : Dfs V) : Prop where
  tree : TreeOn s.tree s.seen root
  stacked : ∀ v ∈ s.stack, v ∈ s.seen
  explored : ∀ v ∈ s.seen, v ∉ s.stack → ∀ w, B.Adj v w → w ∈ s.seen

/-- The stack is a path of the tree, and no edge joins two of its branches. -/
structure Descends (B : SimpleGraph V) (root : V) (s : Dfs V) : Prop extends
    Explores B root s where
  le : s.tree ≤ B
  path : StackPath s.tree root s.stack
  comparable : ∀ v ∈ s.seen, ∀ w ∈ s.seen, B.Adj v w →
    Ancestor s.tree root v w ∨ Ancestor s.tree root w v

variable {s t : Dfs V}

theorem Explores.init (B : SimpleGraph V) (root : V) : Explores B root (init root) where
  tree := TreeOn.singleton root
  stacked := by simp [Dfs.init]
  explored := by
    intro v hv hnot
    exact absurd (List.mem_singleton.mpr hv) hnot

/-- Both moves keep what has been explored. -/
theorem Explores.step (h : Explores B root s) (hstep : Step B s t) : Explores B root t := by
  cases hstep with
  | backtrack top rest hstack hdone htree hseen hrest =>
      refine ⟨by rw [htree, hseen]; exact h.tree, ?_, ?_⟩
      · intro v hv
        rw [hseen]
        apply h.stacked
        rw [hrest] at hv
        rw [hstack]
        exact List.mem_cons_of_mem top hv
      · -- only the popped vertex is new outside the stack
        intro v hv hnot w hw
        rw [hseen] at hv ⊢
        by_cases hvtop : v = top
        · subst hvtop
          exact hdone w hw
        · apply h.explored v hv _ w hw
          rw [hstack]
          rw [hrest] at hnot
          simp [hvtop, hnot]
  | extend top fresh rest hstack hadj hfresh htree hseen hrest =>
      have htop : top ∈ s.seen := h.stacked top (by simp [hstack])
      refine ⟨by rw [htree, hseen]; exact h.tree.addLeaf htop hfresh, ?_, ?_⟩
      · intro v hv
        rw [hrest, List.mem_cons, ← hstack] at hv
        rw [hseen]
        exact hv.imp_right (h.stacked v)
      · -- the stack only grew, so no vertex has become explored
        intro v hv hnot w hw
        rw [hrest, List.mem_cons, ← hstack, not_or] at hnot
        rw [hseen] at hv ⊢
        rcases hv with hv | hv
        · exact absurd hv hnot.1
        · exact Or.inr (h.explored v hv hnot.2 w hw)

/-- With an empty stack everything has been discovered. -/
theorem Explores.seen_eq_univ (h : Explores B root s) (hB : B.Preconnected)
    (hempty : s.stack = []) : s.seen = Set.univ := by
  apply eq_univ_of_neighbour_closed hB h.tree.root_mem
  intro v hv w hw
  exact h.explored v hv (by simp [hempty]) w hw

theorem Descends.init (B : SimpleGraph V) (root : V) : Descends B root (init root) where
  toExplores := Explores.init B root
  le := bot_le
  path := .root
  comparable := by
    rintro v rfl w rfl hadj
    exact absurd rfl hadj.ne

/-- Both moves keep the stack a path and the branches apart. -/
theorem Descends.step (h : Descends B root s) (hstep : Step B s t) : Descends B root t := by
  have hexplores := h.toExplores.step hstep
  cases hstep with
  | backtrack top rest hstack hdone htree hseen hrest =>
      refine ⟨hexplores, htree ▸ h.le, ?_, by rw [htree, hseen]; exact h.comparable⟩
      have hpath := h.path
      rw [hstack] at hpath
      rw [htree, hrest]
      exact hpath.pop
  | extend top fresh rest hstack hadj hfresh htree hseen hrest =>
      have hgrow : s.tree ≤ t.tree := htree ▸ le_sup_left
      have hedge : t.tree.Adj top fresh := by
        rw [htree, SimpleGraph.sup_adj, SimpleGraph.edge_adj]
        exact Or.inr ⟨Or.inl ⟨rfl, rfl⟩, hadj.ne⟩
      have hpath : StackPath t.tree root (fresh :: top :: rest) := by
        refine .push (hstack ▸ h.path.mono hgrow) hedge fun hmem => ?_
        exact hfresh (h.stacked fresh (by rw [hstack]; exact hmem))
      -- a discovered neighbour of the fresh vertex has not been explored
      have hbelow : ∀ v ∈ s.seen, B.Adj v fresh → Ancestor t.tree root v fresh := by
        intro v hv hvfresh
        apply hpath.ancestor
        by_contra hnot
        rw [← hstack, List.mem_cons, not_or] at hnot
        exact hfresh (h.explored v hv hnot.2 fresh hvfresh)
      refine ⟨hexplores, ?_, hrest ▸ hpath, ?_⟩
      · rw [htree]
        exact sup_le h.le ((SimpleGraph.edge_le_iff _).mpr (Or.inr hadj))
      · intro v hv w hw hvw
        rw [hseen] at hv hw
        rcases hv with rfl | hv
        · rcases hw with rfl | hw
          · exact absurd rfl hvw.ne
          · exact Or.inr (hbelow w hw hvw.symm)
        · rcases hw with rfl | hw
          · exact Or.inl (hbelow v hv hvw)
          · exact (h.comparable v hv w hw hvw).imp (Ancestor.mono hgrow) (Ancestor.mono hgrow)

/-- With an empty stack a search tree is complete. -/
theorem Descends.isSearchTree (h : Descends B root s) (hB : B.Preconnected)
    (hempty : s.stack = []) : IsSearchTree B s.tree root where
  le := h.le
  isTree := by
    have htree := h.tree
    rw [h.seen_eq_univ hB hempty] at htree
    exact htree.isTree
  comparable := by
    intro u v hadj _
    have huniv := h.seen_eq_univ hB hempty
    exact h.comparable u (huniv ▸ Set.mem_univ u) v (huniv ▸ Set.mem_univ v) hadj

/-- A search within a search tree can stay within it. -/
theorem Descends.exists_step (h : Descends B root s) (hT : IsSearchTree B T root)
    (hle : s.tree ≤ T) (hstack : s.stack ≠ []) : ∃ t, Step B s t ∧ t.tree ≤ T := by
  rcases List.exists_cons_of_ne_nil hstack with ⟨top, rest, hstack⟩
  by_cases hdone : ∀ w, B.Adj top w → w ∈ s.seen
  · exact ⟨⟨s.tree, s.seen, rest⟩, .backtrack top rest hstack hdone rfl rfl rfl, hle⟩
  · push Not at hdone
    rcases hdone with ⟨w, hadj, hw⟩
    have hpath := h.path.mono hle
    have hstacked := h.stacked
    have hexplored := h.explored
    rw [hstack] at hpath hstacked hexplored
    rcases hT.exists_fresh_child hpath hstacked hexplored hadj hw with ⟨child, hchild, hedge⟩
    exact ⟨⟨s.tree ⊔ SimpleGraph.edge top child, insert child s.seen, child :: top :: rest⟩,
      .extend top child rest hstack (hT.le hedge) hchild rfl rfl rfl,
      sup_le hle ((SimpleGraph.edge_le_iff _).mpr (Or.inr hedge))⟩

/-- A complete search within a tree has found all of it. -/
theorem Descends.tree_eq (h : Descends B root s) (hB : B.Preconnected) (hempty : s.stack = [])
    (hT : T.IsTree) (hle : s.tree ≤ T) : s.tree = T := by
  have hconnected := (h.isSearchTree hB hempty).isTree.connected
  exact le_antisymm hle ((SimpleGraph.isTree_iff_minimal_connected.mp hT).2 hconnected hle)

end Dfs
end Foundations
