import Mathlib.Data.ENat.Basic
import Mathlib.Data.Set.Card

/-!
# Label-setting search with unit weights

The abstract state of Dijkstra's algorithm over a directed relation whose moves all
have length one: the settled vertices, a label for every vertex ({lit}`⊤` while it
has not been reached) and the predecessor that the label came from.

Main results:

- Theorem {lit}`Search.Valid.label_le_of_isMin`: the smallest label outside the
  settled vertices is at most the length of every walk to its vertex.
- Theorem {lit}`Search.Valid.settle`: settling a vertex of smallest label and
  relaxing its moves keeps the invariant.
- Theorem {lit}`Search.Valid.exists_prevPath`: the predecessors of a reached vertex
  lead back to the root along a path as long as its label.
- Theorem {lit}`PrevForest.settle`: whatever the labels are, settling a vertex keeps
  the predecessors a forest.
-/

namespace Foundations

variable {α : Type*} {R : α → α → Prop} {root : α}

/-! ## Walks and predecessor paths -/

/-- A walk of {lit}`n` moves. -/
inductive Steps (R : α → α → Prop) (a : α) : Nat → α → Prop
  | refl : Steps R a 0 a
  | tail {n : Nat} {b c : α} : Steps R a n b → R b c → Steps R a (n + 1) c

/-- The vertices met when following the predecessors of a vertex to the end. -/
inductive PrevPath (prev : α → Option α) : α → List α → Prop
  | root {a : α} : prev a = none → PrevPath prev a [a]
  | step {a b : α} {path : List α} :
      prev a = some b → PrevPath prev b path → PrevPath prev a (a :: path)

theorem PrevPath.head? {prev : α → Option α} {a : α} {path : List α}
    (h : PrevPath prev a path) : path.head? = some a := by
  cases h <;> rfl

/-- Only the predecessors along the path matter. -/
theorem PrevPath.congr {prev prev' : α → Option α} {a : α} {path : List α}
    (h : PrevPath prev a path) (hsame : ∀ b ∈ path, prev' b = prev b) : PrevPath prev' a path := by
  induction h with
  | @root a hprev => exact .root ((hsame a List.mem_cons_self).trans hprev)
  | @step a b path hprev _ ih =>
      refine .step ((hsame a List.mem_cons_self).trans hprev) (ih fun c hc => ?_)
      exact hsame c (List.mem_cons_of_mem a hc)

/-- Behind its first vertex the path meets predecessors only. -/
theorem PrevPath.tail_subset {prev : α → Option α} {S : Set α}
    (hprev : ∀ v u, prev v = some u → u ∈ S) {a : α} {path : List α} (h : PrevPath prev a path) :
    ∀ w ∈ path.tail, w ∈ S := by
  induction h with
  | root _ => simp
  | @step a b path hab hpath ih =>
      cases hpath with
      | root _ => simpa using hprev a b hab
      | step _ _ =>
          intro w hw
          rcases List.mem_cons.mp hw with rfl | hw
          · exact hprev a w hab
          · exact ih w hw

/-! ## Forests of predecessors -/

/-- Following the predecessors of any vertex comes to an end, passes through settled
vertices only and meets none of them twice. -/
def PrevForest (settled : Set α) (prev : α → Option α) : Prop :=
  ∀ v, ∃ path, PrevPath prev v path ∧ path.Nodup ∧ ∀ w ∈ path.tail, w ∈ settled

/-- A vertex may be settled and become the predecessor of vertices that are not. -/
theorem PrevForest.settle {settled : Set α} {prev prev' : α → Option α} {v : α}
    (h : PrevForest settled prev)
    (hprev : ∀ w, prev' w = prev w ∨ w ∉ insert v settled ∧ prev' w = some v) :
    PrevForest (insert v settled) prev' := by
  have hkept : ∀ w ∈ insert v settled, prev' w = prev w := by
    intro w hw
    rcases hprev w with hsame | ⟨hnot, -⟩
    · exact hsame
    · exact absurd hw hnot
  have hsame : ∀ w, prev' w = prev w → ∃ path, PrevPath prev' w path ∧ path.Nodup ∧
      path.head? = some w ∧ ∀ u ∈ path.tail, u ∈ settled := by
    intro w hw
    rcases h w with ⟨path, hpath, hnodup, htail⟩
    refine ⟨path, hpath.congr fun u hu => ?_, hnodup, hpath.head?, htail⟩
    cases hpath with
    | root _ => rwa [List.mem_singleton.mp hu]
    | step _ _ =>
        rcases List.mem_cons.mp hu with rfl | hu
        · exact hw
        · exact hkept u (Set.mem_insert_of_mem v (htail u hu))
  intro w
  rcases hprev w with hw | ⟨hnot, hw⟩
  · rcases hsame w hw with ⟨path, hpath, hnodup, -, htail⟩
    exact ⟨path, hpath, hnodup, fun u hu => Set.mem_insert_of_mem v (htail u hu)⟩
  · -- the path of the settled vertex is extended by one step
    rcases hsame v (hkept v (Set.mem_insert v settled)) with ⟨path, hpath, hnodup, hhead, htail⟩
    have hsettled : ∀ u ∈ path, u ∈ insert v settled := by
      cases path with
      | nil => simp at hhead
      | cons first path =>
          intro u hu
          rcases List.mem_cons.mp hu with rfl | hu
          · exact Or.inl (Option.some.inj hhead)
          · exact Or.inr (htail u hu)
    refine ⟨w :: path, .step hw hpath, List.nodup_cons.mpr ⟨fun hmem => ?_, hnodup⟩, hsettled⟩
    exact hnot (hsettled w hmem)

/-! ## The search state -/

/-- Settled vertices, labels and predecessors. -/
structure Search (α : Type*) where
  settled : Set α
  label : α → ℕ∞
  prev : α → Option α

/-- The invariant of the search as long as only reached vertices are settled. -/
structure Search.Valid (R : α → α → Prop) (root : α) (S : Search α) : Prop where
  root_label : S.label root = 0
  root_prev : S.prev root = none
  settled_le : ∀ u ∈ S.settled, ∀ v ∉ S.settled, S.label u ≤ S.label v
  relaxed : ∀ u ∈ S.settled, ∀ v, R u v → S.label v ≤ S.label u + 1
  prev_some : ∀ v u, S.prev v = some u →
    u ∈ S.settled ∧ R u v ∧ S.label u ≠ ⊤ ∧ S.label v = S.label u + 1
  prev_none : ∀ v, v ≠ root → S.prev v = none → S.label v = ⊤

namespace Search

variable {S : Search α}

/-- A vertex outside the settled ones with the smallest label. -/
structure IsMin (S : Search α) (v : α) : Prop where
  not_settled : v ∉ S.settled
  le : ∀ w ∉ S.settled, S.label v ≤ S.label w

/-- The initial state: nothing is settled and only the root is reached. -/
theorem Valid.init (hsettled : S.settled = ∅) (hroot : S.label root = 0)
    (hlabel : ∀ v, v ≠ root → S.label v = ⊤) (hprev : ∀ v, S.prev v = none) :
    S.Valid R root where
  root_label := hroot
  root_prev := hprev root
  settled_le := by simp [hsettled]
  relaxed := by simp [hsettled]
  prev_some := by simp [hprev]
  prev_none := fun v hv _ => hlabel v hv

/-- A walk either stays within the labels or meets an unsettled vertex whose label
it bounds. -/
theorem Valid.cut (hS : S.Valid R root) {n : Nat} {v : α} (hwalk : Steps R root n v) :
    S.label v ≤ n ∨ ∃ w ∉ S.settled, S.label w ≤ n := by
  induction hwalk with
  | refl => exact Or.inl (by simp [hS.root_label])
  | @tail n u v _ hmove ih =>
      have hgrow : (n : ℕ∞) ≤ ((n + 1 : Nat) : ℕ∞) := by
        exact_mod_cast Nat.le_succ n
      rcases ih with hu | ⟨w, hw, hle⟩
      · by_cases hsettled : u ∈ S.settled
        · left
          calc
            S.label v ≤ S.label u + 1 := hS.relaxed u hsettled v hmove
            _ ≤ (n : ℕ∞) + 1 := by gcongr
            _ = ((n + 1 : Nat) : ℕ∞) := by push_cast; rfl
        · exact Or.inr ⟨u, hsettled, hu.trans hgrow⟩
      · exact Or.inr ⟨w, hw, hle.trans hgrow⟩

/-- The smallest unsettled label is a lower bound for every walk to its vertex. -/
theorem Valid.label_le_of_isMin (hS : S.Valid R root) {v : α} (hv : S.IsMin v)
    {n : Nat} (hwalk : Steps R root n v) : S.label v ≤ n := by
  rcases hS.cut hwalk with hle | ⟨w, hw, hle⟩
  · exact hle
  · exact (hv.le w hw).trans hle

/-- While a reachable vertex is unsettled, the smallest unsettled label is finite. -/
theorem Valid.label_ne_top_of_isMin (hS : S.Valid R root) {v target : α} (hv : S.IsMin v)
    (htarget : target ∉ S.settled) {n : Nat} (hwalk : Steps R root n target) :
    S.label v ≠ ⊤ := by
  have hle : S.label v ≤ n := by
    rcases hS.cut hwalk with hle | ⟨w, hw, hle⟩
    · exact (hv.le target htarget).trans hle
    · exact (hv.le w hw).trans hle
  exact ne_top_of_le_ne_top (ENat.natCast_ne_top n) hle

/-- What settling {lit}`v` and relaxing all its moves does to the search. -/
structure Settles (R : α → α → Prop) (v : α) (S T : Search α) : Prop where
  settled : T.settled = insert v S.settled
  improved : ∀ w, w ∉ T.settled → R v w → S.label v + 1 < S.label w →
    T.label w = S.label v + 1 ∧ T.prev w = some v
  kept : ∀ w, ¬(w ∉ T.settled ∧ R v w ∧ S.label v + 1 < S.label w) →
    T.label w = S.label w ∧ T.prev w = S.prev w

/-- Settling a reached vertex of smallest label keeps the invariant. -/
theorem Valid.settle {T : Search α} {v : α} (hS : S.Valid R root) (hv : S.IsMin v)
    (hfinite : S.label v ≠ ⊤) (hT : Settles R v S T) : T.Valid R root := by
  have hold : ∀ u ∈ T.settled, T.label u = S.label u ∧ T.prev u = S.prev u :=
    fun u hu => hT.kept u (fun h => h.1 hu)
  have hvT : v ∈ T.settled := hT.settled ▸ Set.mem_insert v S.settled
  have hsub : ∀ u ∈ S.settled, u ∈ T.settled :=
    fun u hu => hT.settled ▸ Set.mem_insert_of_mem v hu
  have hcases : ∀ u ∈ T.settled, u = v ∨ u ∈ S.settled := by
    intro u hu
    rw [hT.settled] at hu
    exact hu
  have hnot : ∀ w, w ∉ T.settled → w ∉ S.settled := fun w hw h => hw (hsub w h)
  have hlabel_le : ∀ w, T.label w ≤ S.label w := by
    intro w
    by_cases h : w ∉ T.settled ∧ R v w ∧ S.label v + 1 < S.label w
    · rw [(hT.improved w h.1 h.2.1 h.2.2).1]
      exact h.2.2.le
    · rw [(hT.kept w h).1]
  have hroot : ¬(root ∉ T.settled ∧ R v root ∧ S.label v + 1 < S.label root) := by
    rintro ⟨-, -, hlt⟩
    rw [hS.root_label] at hlt
    exact not_lt_zero hlt
  refine ⟨?_, ?_, ?_, ?_, ?_, ?_⟩
  · rw [(hT.kept root hroot).1, hS.root_label]
  · rw [(hT.kept root hroot).2, hS.root_prev]
  · -- labels of settled vertices stay below all others
    intro u hu w hw
    have huv : S.label u ≤ S.label v := by
      rcases hcases u hu with rfl | hu'
      · exact le_rfl
      · exact hS.settled_le u hu' v hv.not_settled
    rw [(hold u hu).1]
    by_cases h : w ∉ T.settled ∧ R v w ∧ S.label v + 1 < S.label w
    · rw [(hT.improved w h.1 h.2.1 h.2.2).1]
      exact huv.trans le_self_add
    · rw [(hT.kept w h).1]
      exact huv.trans (hv.le w (hnot w hw))
  · intro u hu w hmove
    rw [(hold u hu).1]
    rcases hcases u hu with rfl | hu'
    · by_cases h : w ∉ T.settled ∧ R u w ∧ S.label u + 1 < S.label w
      · rw [(hT.improved w h.1 h.2.1 h.2.2).1]
      · by_cases hw : w ∈ T.settled
        · rw [(hold w hw).1]
          rcases hcases w hw with rfl | hw'
          · exact le_self_add
          · exact (hS.settled_le w hw' u hv.not_settled).trans le_self_add
        · rw [(hT.kept w h).1]
          exact not_lt.mp fun hlt => h ⟨hw, hmove, hlt⟩
    · exact (hlabel_le w).trans (hS.relaxed u hu' w hmove)
  · intro w u hprev
    by_cases h : w ∉ T.settled ∧ R v w ∧ S.label v + 1 < S.label w
    · rcases hT.improved w h.1 h.2.1 h.2.2 with ⟨hlabel, hprev'⟩
      have huv : v = u := Option.some.inj (hprev'.symm.trans hprev)
      subst huv
      rw [hlabel, (hold v hvT).1]
      exact ⟨hvT, h.2.1, hfinite, rfl⟩
    · rw [(hT.kept w h).2] at hprev
      rcases hS.prev_some w u hprev with ⟨hu, hmove, htop, hlabel⟩
      rw [(hT.kept w h).1, (hold u (hsub u hu)).1]
      exact ⟨hsub u hu, hmove, htop, hlabel⟩
  · intro w hw hprev
    by_cases h : w ∉ T.settled ∧ R v w ∧ S.label v + 1 < S.label w
    · rw [(hT.improved w h.1 h.2.1 h.2.2).2] at hprev
      contradiction
    · rw [(hT.kept w h).2] at hprev
      rw [(hT.kept w h).1]
      exact hS.prev_none w hw hprev

/-- No finite label exceeds {lit}`bound`. -/
def LabelsBounded (S : Search α) (bound : Nat) : Prop :=
  ∀ v, S.label v ≠ ⊤ → S.label v ≤ bound

/-- Settling one vertex raises the largest finite label by at most one. -/
theorem LabelsBounded.settle {T : Search α} {v : α} {bound : Nat} (hS : S.LabelsBounded bound)
    (hfinite : S.label v ≠ ⊤) (hT : Settles R v S T) : T.LabelsBounded (bound + 1) := by
  intro w hw
  have hgrow : (bound : ℕ∞) ≤ ((bound + 1 : Nat) : ℕ∞) := by
    exact_mod_cast Nat.le_succ bound
  by_cases h : w ∉ T.settled ∧ R v w ∧ S.label v + 1 < S.label w
  · rw [(hT.improved w h.1 h.2.1 h.2.2).1]
    have hv := hS v hfinite
    calc
      S.label v + 1 ≤ (bound : ℕ∞) + 1 := by gcongr
      _ = ((bound + 1 : Nat) : ℕ∞) := by push_cast; rfl
  · rw [(hT.kept w h).1] at hw ⊢
    exact (hS w hw).trans hgrow

/-- Following the predecessors of a reached vertex leads back to the root in as many
moves as its label says, through ever smaller labels. -/
theorem Valid.exists_prevPath (hS : S.Valid R root) {n : Nat} {v : α} (hv : S.label v = n) :
    ∃ path, PrevPath S.prev v path ∧ path.length = n + 1 ∧ path.getLast? = some root ∧
      path.IsChain (fun a b => R b a) ∧ (∀ w ∈ path, S.label w ≤ n) ∧ path.Nodup ∧
      Steps R root n v := by
  induction n generalizing v with
  | zero =>
      have hroot : v = root := by
        by_contra hne
        cases hprev : S.prev v with
        | none =>
            rw [hS.prev_none v hne hprev] at hv
            exact absurd hv.symm (ENat.natCast_ne_top 0)
        | some u =>
            have hlabel := (hS.prev_some v u hprev).2.2.2
            rw [hv] at hlabel
            exact absurd hlabel.symm (by simp)
      subst hroot
      refine ⟨[v], .root hS.root_prev, rfl, rfl, .singleton v, ?_, by simp, .refl⟩
      intro w hw
      rw [List.mem_singleton.mp hw, hv]
  | succ n ih =>
      cases hprev : S.prev v with
      | none =>
          by_cases hroot : v = root
          · rw [hroot, hS.root_label] at hv
            exact absurd hv.symm (by simp)
          · rw [hS.prev_none v hroot hprev] at hv
            exact absurd hv.symm (ENat.natCast_ne_top (n + 1))
      | some u =>
          rcases hS.prev_some v u hprev with ⟨-, hmove, htop, hlabel⟩
          have hu : S.label u = n := by
            rw [hv] at hlabel
            push_cast at hlabel
            exact (ENat.add_left_injective_of_ne_top ENat.one_ne_top hlabel).symm
          rcases ih hu with ⟨path, hpath, hlength, hlast, hchain, hle, hnodup, hwalk⟩
          have hlt : (n : ℕ∞) < ((n + 1 : Nat) : ℕ∞) := by
            exact_mod_cast Nat.lt_succ_self n
          refine ⟨v :: path, .step hprev hpath, by simp [hlength], ?_, ?_, ?_, ?_,
            .tail hwalk hmove⟩
          · rw [List.getLast?_cons, hlast]
            rfl
          · rw [List.isChain_cons]
            refine ⟨fun w hw => ?_, hchain⟩
            rw [hpath.head?] at hw
            cases hw
            exact hmove
          · intro w hw
            rcases List.mem_cons.mp hw with rfl | hw
            · exact hv.le
            · exact (hle w hw).trans hlt.le
          · rw [List.nodup_cons]
            refine ⟨fun hmem => ?_, hnodup⟩
            have hbad := hle v hmem
            rw [hv] at hbad
            exact absurd hlt (not_lt.mpr hbad)

/-- The predecessors of a valid search form a forest over its settled vertices. -/
theorem Valid.prevForest (hS : S.Valid R root) : PrevForest S.settled S.prev := by
  intro v
  by_cases htop : S.label v = ⊤
  · have hnone : S.prev v = none := by
      cases hprev : S.prev v with
      | none => rfl
      | some u =>
          rcases hS.prev_some v u hprev with ⟨-, -, hu, hlabel⟩
          exact absurd (hlabel.symm.trans htop) (by simp [hu])
    exact ⟨[v], .root hnone, List.nodup_singleton v, by simp⟩
  · rcases ENat.ne_top_iff_exists.mp htop with ⟨n, hn⟩
    rcases hS.exists_prevPath hn.symm with ⟨path, hpath, -, -, -, -, hnodup, -⟩
    exact ⟨path, hpath, hnodup,
      hpath.tail_subset fun w u hprev => (hS.prev_some w u hprev).1⟩

end Search
end Foundations
