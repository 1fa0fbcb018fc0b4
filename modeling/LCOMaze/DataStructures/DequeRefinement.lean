import LCOMaze.DataStructures.ListRefinement
import LCOMaze.Foundations.Refinement

/-!
# The linked list as a double-ended sequence

{lit}`linked_list_pop_last` looks for the node before {lit}`last` and assumes that there is one.

Main results:

- Theorem {lit}`HoldsCells.popLast`: behind another cell, the last cell is removed.
- Theorem {lit}`HoldsCells.popLast_single`: a single cell leads the search to {lit}`NULL`.
- Theorem {lit}`refines_deque_iff`: a run agrees with its sequence exactly when the last cell is
  never asked for while it is the only one.
- Theorem {lit}`refines_deque_not`: one cell, pushed and popped.
-/

namespace LCOMaze

open Foundations

variable {α : Type}

/-! ## Popping from the back -/

/-- The loop of {lit}`linked_list_pop_last`, up to the node whose {lit}`next` is {lit}`last`. -/
def popLastLoop (heap : NodeHeap α) (last : Option Nat) : Nat → Option Nat → Option Nat
  -- `current_node->next` is read through `NULL`
  | _, none => none
  | 0, some _ => none
  | fuel + 1, some currentNode =>
      (heap.nodes currentNode).bind fun node =>
        if node.next ≠ last then popLastLoop heap last fuel node.next else some currentNode

/-- {lit}`linked_list_pop_last`, with the cell that it returns. -/
def linkedListPopLast (heap : NodeHeap α) (list : LinkedList) :
    Option ((NodeHeap α × LinkedList) × Option α) :=
  if list.size = 0 then some ((heap, list), none)
  else
    (heap.deref list.last).bind fun lastNode =>
      (popLastLoop heap list.last heap.fresh list.head).bind fun currentNode =>
        (heap.setNext (some currentNode) none).bind fun heap =>
          (heap.free list.last).map fun heap =>
            ((heap, { list with last := some currentNode, size := list.size - 1 }),
              some lastNode.value)

section

variable {heap : NodeHeap α} {list : LinkedList}

/-- The search stops at the node before the last one. -/
theorem popLastLoop_stops {pointer : Option Nat} {passed : List (Nat × α)}
    {before last : Nat} {value gone : α} {fuel : Nat}
    (hchain : heap.Chain pointer (passed ++ [(before, value), (last, gone)]))
    (hnodup : ((passed ++ [(before, value), (last, gone)]).map Prod.fst).Nodup)
    (hfuel : passed.length < fuel) :
    popLastLoop heap (some last) fuel pointer = some before := by
  induction passed generalizing pointer fuel with
  | nil =>
      rcases hchain with ⟨rfl, next, hnode, rfl, -⟩
      cases fuel with
      | zero => exact absurd hfuel (Nat.not_lt_zero _)
      | succ fuel =>
          simp [popLastLoop, hnode]
  | cons entry passed ih =>
      rcases hchain with ⟨rfl, next, hnode, hrest⟩
      cases fuel with
      | zero => exact absurd hfuel (Nat.not_lt_zero _)
      | succ fuel =>
          -- the next node is met earlier than the last one
          have hnext : next ≠ some last := by
            rw [List.cons_append, List.map_cons, List.nodup_cons] at hnodup
            cases passed with
            | nil =>
                rcases hrest with ⟨rfl, -⟩
                have hdistinct := hnodup.2
                simp only [List.nil_append, List.map_cons, List.map_nil, List.nodup_cons,
                  List.mem_singleton] at hdistinct
                intro heq
                exact hdistinct.1 (Option.some.inj heq)
            | cons second passed =>
                rcases hrest with ⟨rfl, -⟩
                have hdistinct := hnodup.2
                rw [List.cons_append, List.map_cons, List.nodup_cons] at hdistinct
                intro heq
                apply hdistinct.1
                rw [Option.some.inj heq]
                simp
          rw [List.cons_append, List.map_cons, List.nodup_cons] at hnodup
          simp only [popLastLoop, hnode, Option.bind_some]
          rw [if_pos hnext]
          exact ih hrest hnodup.2 (Nat.lt_of_succ_lt_succ hfuel)

/-- Behind another node, the last node is removed. -/
theorem IsList.popLast {passed : List (Nat × α)} {before last : Nat} {value gone : α}
    (h : IsList heap list (passed ++ [(before, value), (last, gone)]))
    (hlast : LastCorrect list (passed ++ [(before, value), (last, gone)])) :
    ∃ heap' list', linkedListPopLast heap list = some ((heap', list'), some gone) ∧
      IsList heap' list' (passed ++ [(before, value)]) ∧
      LastCorrect list' (passed ++ [(before, value)]) := by
  have hsize : ¬list.size = 0 := by
    rw [h.size_eq_zero_iff]
    simp
  have hlast' : list.last = some last := by
    rw [hlast (by simp)]
    simp
  have hsplit : passed ++ [(before, value), (last, gone)] =
      (passed ++ [(before, value)]) ++ [(last, gone)] := by simp
  have hdistinct : before ≠ last ∧ ∀ entry ∈ passed, entry.1 ≠ before ∧ entry.1 ≠ last := by
    have hnodup := h.nodup
    simp only [List.map_append, List.map_cons, List.map_nil, List.nodup_append, List.nodup_cons,
      List.mem_cons, List.not_mem_nil, or_false] at hnodup
    refine ⟨hnodup.2.1.1, fun entry hentry => ⟨?_, ?_⟩⟩
    · exact hnodup.2.2 entry.1 (List.mem_map_of_mem hentry) before (Or.inl rfl)
    · exact hnodup.2.2 entry.1 (List.mem_map_of_mem hentry) last (Or.inr rfl)
  have hmem : (before, value) ∈ passed ++ [(before, value), (last, gone)] := by simp
  rcases h.chain.exists_node hmem with ⟨next, hbefore⟩
  have hgone : heap.nodes last = some ⟨gone, none⟩ := by
    have hchain := h.chain
    rw [hsplit] at hchain
    exact hchain.final
  have hloop : popLastLoop heap list.last heap.fresh list.head = some before := by
    rw [hlast']
    apply popLastLoop_stops h.chain h.nodup
    have hle := h.length_le_fresh
    rw [List.length_append] at hle
    simp only [List.length_cons, List.length_nil] at hle
    omega
  refine ⟨{ heap with
      nodes := Function.update (Function.update heap.nodes before (some ⟨value, none⟩)) last none },
    { list with last := some before, size := list.size - 1 }, ?_, ⟨?_, ?_, ?_, ?_⟩, ?_⟩
  · simp only at hbefore
    rw [linkedListPopLast, if_neg hsize, hloop, hlast']
    simp [NodeHeap.deref, NodeHeap.setNext, NodeHeap.free, hgone, hbefore, hdistinct.1.symm]
  · apply h.chain.unlink hgone
    · simp [hdistinct.1]
    · intro entry hentry
      rw [List.append_nil] at hentry
      simp [hdistinct.2 entry hentry]
  · have hnodup := h.nodup
    rw [hsplit, List.map_append] at hnodup
    exact (List.nodup_append.mp hnodup).1
  · intro entry hentry
    apply h.allocated entry
    rw [hsplit]
    exact List.mem_append_left _ hentry
  · rw [h.size_eq, hsplit, List.length_append]
    simp
  · intro _
    simp

/-- The search for the node before the only one reads through {lit}`NULL`. -/
theorem IsList.popLast_single {address : Nat} {cell : α} (h : IsList heap list [(address, cell)])
    (hlast : LastCorrect list [(address, cell)]) : linkedListPopLast heap list = none := by
  have hsize : ¬list.size = 0 := by
    rw [h.size_eq_zero_iff]
    exact List.cons_ne_nil _ _
  have hlast' : list.last = some address := hlast (List.cons_ne_nil _ _)
  rcases h.chain with ⟨hhead, next, hnode, rfl⟩
  have hloop : popLastLoop heap list.last heap.fresh list.head = none := by
    rw [hlast', hhead]
    cases heap.fresh with
    | zero => rfl
    | succ fuel =>
        simp only [popLastLoop, hnode, Option.bind_some]
        cases fuel <;> rfl
  rw [linkedListPopLast, if_neg hsize, hloop]
  cases heap.deref list.last <;> rfl

end

/-! ## Calls -/

/-- A call that appends a cell or removes one at either end. -/
inductive DequeOp (α : Type) where
  | push (cell : α)
  | popFirst
  | popLast

/-- One call; {lean}`none` is a fault. -/
def dequeCall (state : ListState α) : DequeOp α → Option (ListState α × ListResult α)
  | .push cell => (linkedListPush state.1 state.2 cell).map fun state => (state, .done)
  | .popFirst =>
      (linkedListPopFirst state.1 state.2).map fun result => (result.1, .cell result.2)
  | .popLast =>
      (linkedListPopLast state.1 state.2).map fun result => (result.1, .cell result.2)

/-- The same call on a sequence; both ends of an empty sequence are {lit}`NULL`. -/
def dequeSpec (cells : List α) : DequeOp α → List α × ListResult α
  | .push cell => (cells ++ [cell], .done)
  | .popFirst => (cells.tail, .cell cells.head?)
  | .popLast => (cells.dropLast, .cell cells.getLast?)

/-- The call does not ask for the last cell while it is the only one. -/
def SparesSingle (cells : List α) : DequeOp α → Prop
  | .popLast => cells.length ≠ 1
  | _ => True

/-- {lit}`linked_list_pop_last` returns and removes the last of no or several cells. -/
theorem HoldsCells.popLast {state : ListState α} {cells : List α}
    (h : HoldsCells state.1 state.2 cells) (hsingle : cells.length ≠ 1) :
    ∃ heap list, linkedListPopLast state.1 state.2 = some ((heap, list), cells.getLast?) ∧
      HoldsCells heap list cells.dropLast := by
  rcases h with ⟨entries, hlist, hlast, rfl⟩
  rcases List.eq_nil_or_concat entries with rfl | ⟨front, ⟨last, gone⟩, rfl⟩
  · have hsize := hlist.size_eq_zero_iff.mpr rfl
    exact ⟨state.1, state.2, by rw [linkedListPopLast, if_pos hsize]; rfl, [], hlist, hlast, rfl⟩
  · rcases List.eq_nil_or_concat front with rfl | ⟨passed, ⟨before, value⟩, rfl⟩
    · exact absurd rfl hsingle
    · have hsplit : (passed.concat (before, value)).concat (last, gone) =
          passed ++ [(before, value), (last, gone)] := by simp
      rw [hsplit] at hlist hlast ⊢
      rcases hlist.popLast hlast with ⟨heap, list, hrun, hlist', hlast'⟩
      refine ⟨heap, list, ?_, passed ++ [(before, value)], hlist', hlast', ?_⟩
      · rw [hrun]
        simp
      · simp [List.dropLast_append_of_ne_nil]

/-- {lit}`linked_list_pop_last` on a single cell reads through {lit}`NULL`. -/
theorem HoldsCells.popLast_single {state : ListState α} {cells : List α}
    (h : HoldsCells state.1 state.2 cells) (hsingle : cells.length = 1) :
    linkedListPopLast state.1 state.2 = none := by
  rcases h with ⟨entries, hlist, hlast, rfl⟩
  rw [List.length_map] at hsingle
  rcases List.length_eq_one_iff.mp hsingle with ⟨⟨address, cell⟩, rfl⟩
  exact hlist.popLast_single hlast

/-! ## Whole runs -/

/-- The list holds the cells of the sequence. -/
def HoldsDeque (state : ListState α) (cells : List α) : Prop :=
  HoldsCells state.1 state.2 cells

/-- Every call but the removal of a single cell from the back does what it does on the
sequence. -/
theorem dequeCall_refines :
    Refines (dequeCall (α := α)) dequeSpec SparesSingle HoldsDeque := by
  intro state cells op h hspares
  cases op with
  | push cell =>
      rcases HoldsCells.push h cell with ⟨heap, list, hrun, hholds⟩
      exact ⟨(heap, list), by rw [dequeCall, hrun]; rfl, hholds⟩
  | popFirst =>
      rcases HoldsCells.popFirst h with ⟨heap, list, hrun, hholds⟩
      exact ⟨(heap, list), by rw [dequeCall, hrun]; rfl, hholds⟩
  | popLast =>
      rcases HoldsCells.popLast h hspares with ⟨heap, list, hrun, hholds⟩
      exact ⟨(heap, list), by rw [dequeCall, hrun]; rfl, hholds⟩

/-- That removal faults. -/
theorem dequeCall_faults (state : ListState α) (cells : List α) (op : DequeOp α)
    (h : HoldsDeque state cells) (hsingle : ¬SparesSingle cells op) :
    dequeCall state op = none := by
  cases op with
  | push cell => exact absurd trivial hsingle
  | popFirst => exact absurd trivial hsingle
  | popLast =>
      rw [dequeCall, HoldsCells.popLast_single h (not_not.mp hsingle)]
      rfl

/-- Starting from the empty list, a run of the operations dereferences no {lit}`NULL` and
returns what a double-ended sequence returns if and only if {lit}`linked_list_pop_last` is never
called while exactly one cell is left. -/
theorem refines_deque_iff (ops : List (DequeOp α)) :
    (∃ state, runCalls dequeCall ops (NodeHeap.empty, LinkedList.empty) =
        some (state, (specCalls dequeSpec ops []).2)) ↔
      Throughout (specNext dequeSpec) SparesSingle ops [] :=
  dequeCall_refines.run_iff dequeCall_faults HoldsCells.empty

/-- One cell, appended and popped from the back. -/
theorem refines_deque_not :
    ¬∀ ops : List (DequeOp Nat), ∃ state,
      runCalls dequeCall ops (NodeHeap.empty, LinkedList.empty) =
        some (state, (specCalls dequeSpec ops []).2) := by
  intro hall
  rcases hall [.push 0, .popLast] with ⟨state, hrun⟩
  have hfault : (runCalls dequeCall [.push 0, .popLast]
      ((NodeHeap.empty : NodeHeap Nat), LinkedList.empty)).isSome = false := by decide
  rw [hrun] at hfault
  cases hfault

end LCOMaze
