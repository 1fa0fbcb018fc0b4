import Mathlib.Combinatorics.SimpleGraph.Acyclic

/-!
# Trees grown one leaf at a time

A search that only ever opens an edge from a discovered vertex to a fresh one
keeps its opened edges a tree on the discovered vertices.  When no discovered
vertex has an undiscovered neighbour left, the tree spans the whole graph.

Main results:

- Theorem {lit}`TreeOn.addLeaf`: opening an edge towards a fresh vertex keeps
  the tree.
- Theorem {lit}`eq_univ_of_neighbour_closed`: a neighbour-closed set of vertices
  of a connected graph is everything.
- Theorem {lit}`TreeOn.isTree`: a tree on all vertices is a spanning tree.
- Theorem {lit}`common_neighbour_unique`: an acyclic graph has no square.
-/

namespace Foundations

variable {V : Type*} {G B : SimpleGraph V} {S : Set V} {root u v : V}

/-- The edges of {lit}`G` form a tree on the discovered vertices {lit}`S`. -/
structure TreeOn (G : SimpleGraph V) (S : Set V) (root : V) : Prop where
  root_mem : root ∈ S
  mem_of_adj : ∀ {u v}, G.Adj u v → u ∈ S
  reachable : ∀ v ∈ S, G.Reachable root v
  acyclic : G.IsAcyclic

/-- The edgeless graph is a tree on its root alone. -/
theorem TreeOn.singleton (root : V) : TreeOn (⊥ : SimpleGraph V) {root} root where
  root_mem := rfl
  mem_of_adj := by simp
  reachable := by rintro v rfl; rfl
  acyclic := SimpleGraph.isAcyclic_bot

/-- No edge of the tree leads to an undiscovered vertex. -/
theorem TreeOn.not_reachable_fresh (h : TreeOn G S root) (hu : u ∈ S) (hv : v ∉ S) :
    ¬G.Reachable u v := by
  rintro ⟨walk⟩
  have hne : u ≠ v := fun heq => hv (heq ▸ hu)
  obtain ⟨w, hw⟩ := walk.reverse.exists_eq_cons_of_ne hne.symm
  exact hv (h.mem_of_adj hw.choose)

/-- Opening an edge from a discovered vertex to a fresh one keeps the tree. -/
theorem TreeOn.addLeaf (h : TreeOn G S root) (hu : u ∈ S) (hv : v ∉ S) :
    TreeOn (G ⊔ SimpleGraph.edge u v) (insert v S) root where
  root_mem := Set.mem_insert_of_mem v h.root_mem
  mem_of_adj := by
    intro a b hab
    rw [SimpleGraph.sup_adj, SimpleGraph.edge_adj] at hab
    rcases hab with hab | ⟨⟨rfl, rfl⟩ | ⟨rfl, rfl⟩, -⟩
    · exact Set.mem_insert_of_mem v (h.mem_of_adj hab)
    · exact Set.mem_insert_of_mem _ hu
    · exact Set.mem_insert _ S
  reachable := by
    have hold : ∀ w ∈ S, (G ⊔ SimpleGraph.edge u v).Reachable root w :=
      fun w hw => (h.reachable w hw).mono le_sup_left
    have hne : u ≠ v := fun heq => hv (heq ▸ hu)
    have hadj : (G ⊔ SimpleGraph.edge u v).Adj u v := by
      simp [SimpleGraph.edge_adj, hne]
    rintro w (rfl | hw)
    · exact (hold u hu).trans hadj.reachable
    · exact hold w hw
  acyclic := h.acyclic.sup_edge_of_not_reachable (h.not_reachable_fresh hu hv)

/-- A nonempty set closed under the neighbours of a connected graph is the
whole vertex set. -/
theorem eq_univ_of_neighbour_closed (hB : B.Preconnected) (hroot : root ∈ S)
    (hclosed : ∀ u ∈ S, ∀ v, B.Adj u v → v ∈ S) : S = Set.univ := by
  refine Set.eq_univ_of_forall fun v => ?_
  obtain ⟨walk⟩ := hB root v
  induction walk with
  | nil => exact hroot
  | cons hadj _ ih => exact ih (hclosed _ hroot _ hadj)

/-- A tree that spans every vertex is a tree in the sense of graph theory. -/
theorem TreeOn.isTree (h : TreeOn G Set.univ root) : G.IsTree where
  connected := by
    have : Nonempty V := ⟨root⟩
    refine ⟨fun a b => ?_⟩
    exact (h.reachable a trivial).symm.trans (h.reachable b trivial)
  isAcyclic := h.acyclic

/-- An acyclic graph has no square: two vertices have at most one common
neighbour. -/
theorem common_neighbour_unique (hG : G.IsAcyclic) {a b c d : V} (hac : a ≠ c)
    (hab : G.Adj a b) (hbc : G.Adj b c) (had : G.Adj a d) (hdc : G.Adj d c) : b = d := by
  let viaB : G.Path a c :=
    ⟨.cons hab (.cons hbc .nil), by simp [hab.ne, hbc.ne, hac]⟩
  let viaD : G.Path a c :=
    ⟨.cons had (.cons hdc .nil), by simp [had.ne, hdc.ne, hac]⟩
  have hpath : viaB = viaD := (hG.subsingleton_path a c).elim viaB viaD
  have hsupport := congrArg (fun path : G.Path a c => path.1.support) hpath
  simpa [viaB, viaD] using hsupport

end Foundations
