import LCOMaze.DataStructures.LinkedList
import LCOMaze.Foundations.Trace

/-!
# The linked list as a sequence

A run of the operations of {lit}`linked_list.c` is compared with a run of the same operations
on a plain sequence of cells.  {lit}`linked_list_remove` never writes {lit}`last`, so removing the
final node leaves {lit}`last` at a node outside the list.

Main results:

- Theorem {lit}`HoldsCells.runOp`: every other operation computes what the sequence computes.
- Theorem {lit}`HoldsCells.not_wellFormed`: after such a removal {lit}`last` is wrong.
- Theorem {lit}`refines_sequence_iff`: a run agrees with its sequence exactly when it never
  removes the final one of several nodes.
- Theorem {lit}`refines_sequence_not`: a removed cell is still the last one.
-/

namespace LCOMaze

open Foundations

variable {α : Type}

/-! ## Operations -/

/-- A call of a function of {lit}`linked_list.c`; {lit}`dist` is what the cells hold at the call. -/
inductive ListOp (α : Type) where
  | push (cell : α)
  | popFirst
  | remove (cell : α)
  | first
  | last
  | contains (cell : α)
  | minimum (dist : α → Int)

/-- What a call returns. -/
inductive ListResult (α : Type) where
  | done
  | cell (result : Option α)
  | answer (result : Bool)
deriving DecidableEq, Repr

/-- The memory together with the list. -/
abbrev ListState (α : Type) := NodeHeap α × LinkedList

section

variable [DecidableEq α]

/-- One call; {lean}`none` is a fault. -/
def runOp (state : ListState α) : ListOp α → Option (ListState α × ListResult α)
  | .push cell => (linkedListPush state.1 state.2 cell).map fun state => (state, .done)
  | .popFirst =>
      (linkedListPopFirst state.1 state.2).map fun result => (result.1, .cell result.2)
  | .remove cell => (linkedListRemove state.1 state.2 cell).map fun state => (state, .done)
  | .first => (linkedListFirst state.1 state.2).map fun result => (state, .cell result)
  | .last => (linkedListLast state.1 state.2).map fun result => (state, .cell result)
  | .contains cell =>
      (linkedListContains state.1 state.2 cell).map fun result => (state, .answer result)
  | .minimum dist =>
      (getMinimumDistance state.1 dist state.2).map fun result => (state, .cell result)

/-- The same call on a plain sequence of cells. -/
def sequenceOp (cells : List α) : ListOp α → List α × ListResult α
  | .push cell => (cells ++ [cell], .done)
  | .popFirst => (cells.tail, .cell cells.head?)
  | .remove cell => (cells.erase cell, .done)
  | .first => (cells, .cell cells.head?)
  | .last => (cells, .cell cells.getLast?)
  | .contains cell => (cells, .answer (decide (cell ∈ cells)))
  | .minimum dist => (cells, .cell (cells.find? fun cell => cells.all (dist cell ≤ dist ·)))

/-- {lit}`size` nodes are reachable from {lit}`head`, and {lit}`last` is the final one of them. -/
def WellFormed (state : ListState α) : Prop :=
  ∃ entries, state.1.Chain state.2.head entries ∧ state.2.size = entries.length ∧
    (0 < state.2.size → state.2.last = entries.getLast?.map Prod.fst)

/-- Every call returns what it returns on the sequence, and every state is well formed. -/
def Agrees : List (ListOp α) → ListState α → List α → Prop
  | [], state, _ => WellFormed state
  | op :: ops, state, cells =>
      WellFormed state ∧ ∃ state', runOp state op = some (state', (sequenceOp cells op).2) ∧
        Agrees ops state' (sequenceOp cells op).1

/-- The sequence after one call. -/
def sequenceStep (cells : List α) (op : ListOp α) : List α := (sequenceOp cells op).1

/-- The call removes the final one of several cells. -/
def RemovesFinal (cells : List α) : ListOp α → Prop
  | .remove cell => 2 ≤ cells.length ∧ cells.idxOf cell + 1 = cells.length
  | _ => False

/-! ## Removal on both sides -/

/-- The final one of several cells is removed when nothing follows it. -/
theorem removesFinal_iff {before after : List α} {cell : α} (hnew : cell ∉ before) :
    RemovesFinal (before ++ cell :: after) (.remove cell) ↔ after = [] ∧ before ≠ [] := by
  rw [RemovesFinal, List.idxOf_append_of_notMem hnew, List.idxOf_cons_self,
    ← List.length_eq_zero_iff (l := after), ← List.length_pos_iff]
  simp only [List.length_append, List.length_cons]
  omega

end

/-! ## One call -/

theorem HoldsCells.empty : HoldsCells (NodeHeap.empty : NodeHeap α) LinkedList.empty [] :=
  ⟨[], IsList.empty _, fun hne => absurd rfl hne, rfl⟩

theorem HoldsCells.wellFormed {state : ListState α} {cells : List α}
    (h : HoldsCells state.1 state.2 cells) : WellFormed state := by
  rcases h with ⟨entries, hlist, hlast, -⟩
  refine ⟨entries, hlist.chain, hlist.size_eq, fun hpos => hlast ?_⟩
  intro hnil
  rw [hlist.size_eq_zero_iff.mpr hnil] at hpos
  exact lt_irrefl 0 hpos

/-- The nodes around the first one of a cell. -/
theorem exists_entry_split {entries : List (Nat × α)} {before after : List α} {cell : α}
    (h : entries.map Prod.snd = before ++ cell :: after) :
    ∃ passed address rest, entries = passed ++ (address, cell) :: rest ∧
      passed.map Prod.snd = before ∧ rest.map Prod.snd = after := by
  rcases List.map_eq_append_iff.mp h with ⟨passed, found, rfl, hpassed, hfound⟩
  rcases List.map_eq_cons_iff.mp hfound with ⟨⟨address, _⟩, rest, rfl, rfl, hrest⟩
  exact ⟨passed, address, rest, rfl, hpassed, hrest⟩

section

variable [DecidableEq α] {state : ListState α} {cells : List α}

/-- Removing a cell that is there deletes its first node and leaves {lit}`last` alone. -/
theorem HoldsCells.remove_mem {before after : List α} {cell : α}
    (h : HoldsCells state.1 state.2 (before ++ cell :: after)) (hnew : cell ∉ before) :
    ∃ passed address rest heap list,
      IsList state.1 state.2 (passed ++ (address, cell) :: rest) ∧
      LastCorrect state.2 (passed ++ (address, cell) :: rest) ∧
      passed.map Prod.snd = before ∧ rest.map Prod.snd = after ∧
      linkedListRemove state.1 state.2 cell = some (heap, list) ∧
      IsList heap list (passed ++ rest) ∧ list.last = state.2.last := by
  rcases h with ⟨entries, hlist, hlast, hcells⟩
  rcases exists_entry_split hcells with ⟨passed, address, rest, rfl, hpassed, hrest⟩
  have hother : ∀ entry ∈ passed, entry.2 ≠ cell := by
    intro entry hentry heq
    apply hnew
    rw [← hpassed, ← heq]
    exact List.mem_map_of_mem hentry
  rcases hlist.remove hother with ⟨heap, list, hrun, hlist'⟩
  exact ⟨passed, address, rest, heap, list, hlist, hlast, hpassed, hrest, hrun, hlist',
    IsList.removeLoop_last hrun⟩

/-- A removal other than that of the final node among several keeps the list. -/
theorem HoldsCells.remove (h : HoldsCells state.1 state.2 cells) {cell : α}
    (hfinal : ¬RemovesFinal cells (.remove cell)) :
    ∃ heap list, linkedListRemove state.1 state.2 cell = some (heap, list) ∧
      HoldsCells heap list (cells.erase cell) := by
  by_cases hmem : cell ∈ cells
  · rcases List.eq_append_cons_of_mem hmem with ⟨before, after, rfl, hnew⟩
    rw [removesFinal_iff hnew] at hfinal
    rcases h.remove_mem hnew with
      ⟨passed, address, rest, heap, list, -, hlast, hpassed, hrest, hrun, hlist, hkept⟩
    refine ⟨heap, list, hrun, passed ++ rest, hlist, ?_, ?_⟩
    · intro hne
      rw [hkept, hlast (by simp)]
      cases rest with
      | nil =>
          -- a final node is removed only if it is the first one as well
          have hbefore : before = [] := not_not.mp fun hbefore => hfinal ⟨hrest.symm, hbefore⟩
          rw [hbefore, List.map_eq_nil_iff] at hpassed
          rw [hpassed] at hne
          exact absurd rfl hne
      | cons entry rest => simp [List.getLast?_append, List.getLast?_cons_cons]
    · rw [List.map_append, hpassed, hrest, List.erase_append_right _ hnew, List.erase_cons_head]
  · rcases h with ⟨entries, hlist, hlast, rfl⟩
    refine ⟨state.1, state.2, hlist.remove_absent ?_, entries, hlist, hlast,
      (List.erase_of_not_mem hmem).symm⟩
    intro entry hentry heq
    rw [← heq] at hmem
    exact hmem (List.mem_map_of_mem hentry)

/-- Removing the final one of several nodes leaves {lit}`last` outside the list. -/
theorem HoldsCells.not_wellFormed (h : HoldsCells state.1 state.2 cells) {op : ListOp α}
    (hfinal : RemovesFinal cells op) {state' : ListState α} {result : ListResult α}
    (hrun : runOp state op = some (state', result)) : ¬WellFormed state' := by
  cases op with
  | remove cell =>
      have hmem : cell ∈ cells := by
        rw [← List.idxOf_lt_length_iff]
        have := hfinal.2
        omega
      rcases List.eq_append_cons_of_mem hmem with ⟨before, after, rfl, hnew⟩
      rw [removesFinal_iff hnew] at hfinal
      rcases h.remove_mem hnew with
        ⟨passed, address, rest, heap, list, hold, hlast, hpassed, hrest, hremove, hlist, hkept⟩
      rw [hfinal.1, List.map_eq_nil_iff] at hrest
      subst hrest
      rw [runOp, hremove] at hrun
      cases hrun
      rw [List.append_nil] at hlist
      rintro ⟨entries, hchain, hsize, hcorrect⟩
      have hentries : passed = entries := hlist.chain.unique hchain
      subst hentries
      have hne : passed ≠ [] := by
        intro hnil
        apply hfinal.2
        rw [← hpassed, hnil]
        rfl
      have hfound := hcorrect (by
        rw [hsize]
        exact_mod_cast List.length_pos_of_ne_nil hne)
      rw [hkept, hlast (by simp), List.getLast?_append, List.getLast?_singleton,
        List.getLast?_eq_some_getLast hne] at hfound
      -- `last` still holds the address of the removed node, which is not in the list
      have hnodup := hold.nodup
      rw [List.map_append, List.nodup_append] at hnodup
      exact hnodup.2.2 _ (List.mem_map_of_mem (List.getLast_mem hne)) address (by simp)
        (Option.some.inj hfound).symm
  | push cell => cases hfinal
  | popFirst => cases hfinal
  | first => cases hfinal
  | last => cases hfinal
  | contains cell => cases hfinal
  | minimum dist => cases hfinal

omit [DecidableEq α] in
/-- {lit}`linked_list_push` appends. -/
theorem HoldsCells.push (h : HoldsCells state.1 state.2 cells) (cell : α) :
    ∃ heap list, linkedListPush state.1 state.2 cell = some (heap, list) ∧
      HoldsCells heap list (cells ++ [cell]) := by
  rcases h with ⟨entries, hlist, hlast, rfl⟩
  rcases hlist.push hlast cell with ⟨heap, list, hrun, hlist', hlast'⟩
  exact ⟨heap, list, hrun, _, hlist', hlast', by simp⟩

omit [DecidableEq α] in
/-- {lit}`linked_list_pop_first` removes at the front. -/
theorem HoldsCells.popFirst (h : HoldsCells state.1 state.2 cells) :
    ∃ heap list, linkedListPopFirst state.1 state.2 = some ((heap, list), cells.head?) ∧
      HoldsCells heap list cells.tail := by
  rcases h with ⟨entries, hlist, hlast, rfl⟩
  cases entries with
  | nil =>
      have hsize := hlist.size_eq_zero_iff.mpr rfl
      exact ⟨state.1, state.2, by rw [linkedListPopFirst, if_pos hsize]; rfl, [], hlist, hlast, rfl⟩
  | cons entry rest =>
      rcases hlist.popFirst with ⟨heap, list, hrun, hlist', hkept⟩
      refine ⟨heap, list, hrun, rest, hlist', ?_, rfl⟩
      intro hne
      rw [hkept, hlast (List.cons_ne_nil _ _)]
      cases rest with
      | nil => exact absurd rfl hne
      | cons next rest => rw [List.getLast?_cons_cons]

omit [DecidableEq α] in
/-- {lit}`get_minimum_distance` returns the first cell of least distance. -/
theorem HoldsCells.minimum (h : HoldsCells state.1 state.2 cells) (dist : α → Int) :
    getMinimumDistance state.1 dist state.2 =
      some (cells.find? fun cell => cells.all (dist cell ≤ dist ·)) := by
  rcases h with ⟨entries, hlist, -, rfl⟩
  cases entries with
  | nil =>
      rw [getMinimumDistance, if_pos (hlist.size_eq_zero_iff.mpr rfl)]
      rfl
  | cons entry rest =>
      rw [hlist.getMinimumDistance dist, List.map_cons, find?_eq_leastCell]

/-- Every call but the removal of the final one of several cells computes what the sequence
computes. -/
theorem HoldsCells.runOp (h : HoldsCells state.1 state.2 cells) {op : ListOp α}
    (hfinal : ¬RemovesFinal cells op) :
    ∃ state', LCOMaze.runOp state op = some (state', (sequenceOp cells op).2) ∧
      HoldsCells state'.1 state'.2 (sequenceOp cells op).1 := by
  cases op with
  | push cell =>
      rcases h.push cell with ⟨heap, list, hrun, hholds⟩
      exact ⟨(heap, list), by rw [LCOMaze.runOp, hrun]; rfl, hholds⟩
  | popFirst =>
      rcases h.popFirst with ⟨heap, list, hrun, hholds⟩
      exact ⟨(heap, list), by rw [LCOMaze.runOp, hrun]; rfl, hholds⟩
  | remove cell =>
      rcases h.remove hfinal with ⟨heap, list, hrun, hholds⟩
      exact ⟨(heap, list), by rw [LCOMaze.runOp, hrun]; rfl, hholds⟩
  | first =>
      rcases h with ⟨entries, hlist, hlast, rfl⟩
      refine ⟨state, ?_, entries, hlist, hlast, rfl⟩
      rw [LCOMaze.runOp, hlist.first, Option.map_some, sequenceOp, List.head?_map]
  | last =>
      rcases h with ⟨entries, hlist, hlast, rfl⟩
      refine ⟨state, ?_, entries, hlist, hlast, rfl⟩
      rw [LCOMaze.runOp, hlist.last hlast, Option.map_some, sequenceOp, List.getLast?_map]
  | contains cell =>
      rcases h with ⟨entries, hlist, hlast, rfl⟩
      refine ⟨state, ?_, entries, hlist, hlast, rfl⟩
      rw [LCOMaze.runOp, hlist.contains, Option.map_some, sequenceOp]
  | minimum dist =>
      refine ⟨state, ?_, h⟩
      rw [LCOMaze.runOp, h.minimum dist, Option.map_some, sequenceOp]

/-! ## Whole runs -/

/-- From a list that holds these cells on, a run agrees with its sequence exactly when it
never removes the final one of several cells. -/
theorem HoldsCells.agrees_iff (h : HoldsCells state.1 state.2 cells) (ops : List (ListOp α)) :
    Agrees ops state cells ↔
      Throughout sequenceStep (fun cells op => ¬RemovesFinal cells op) ops cells := by
  induction ops generalizing state cells with
  | nil => exact iff_of_true h.wellFormed trivial
  | cons op ops ih =>
      rw [throughout_cons]
      constructor
      · rintro ⟨-, state', hrun, hagrees⟩
        have hkeeps : ¬RemovesFinal cells op := by
          intro hfinal
          have hwrong := h.not_wellFormed hfinal hrun
          cases ops with
          | nil => exact hwrong hagrees
          | cons op ops => exact hwrong hagrees.1
        rcases h.runOp hkeeps with ⟨state'', hrun', hholds⟩
        have hsame : state'' = state' := by
          rw [hrun] at hrun'
          exact (congrArg Prod.fst (Option.some.inj hrun')).symm
        subst hsame
        exact ⟨hkeeps, (ih hholds).mp hagrees⟩
      · rintro ⟨hkeeps, hlater⟩
        rcases h.runOp hkeeps with ⟨state', hrun, hholds⟩
        exact ⟨h.wellFormed, state', hrun, (ih hholds).mpr hlater⟩

end

/-- Starting from the empty list, the operations return what they return on a plain sequence,
with {lit}`size` and {lit}`last` right in every state, if and only if {lit}`linked_list_remove`
is never asked to remove a cell whose first occurrence is the final one of several cells. -/
theorem refines_sequence_iff [DecidableEq α] (ops : List (ListOp α)) :
    Agrees ops (NodeHeap.empty, LinkedList.empty) [] ↔
      Throughout sequenceStep (fun cells op => ¬RemovesFinal cells op) ops [] :=
  HoldsCells.empty.agrees_iff ops

/-- After two appends and the removal of the second cell, that cell is still the last one. -/
theorem refines_sequence_not :
    ¬∀ ops : List (ListOp Nat), Agrees ops (NodeHeap.empty, LinkedList.empty) [] := by
  intro hall
  rcases hall [.push 0, .push 1, .remove 1, .last] with
    ⟨-, _, hfirst, -, _, hsecond, -, _, hremove, -, _, hlast, -⟩
  have hresult : ((runOp (NodeHeap.empty, LinkedList.empty) (.push 0)).bind fun pushed =>
      (runOp pushed.1 (.push 1)).bind fun pushed =>
      (runOp pushed.1 (.remove 1)).bind fun removed =>
      (runOp removed.1 .last).map Prod.snd) = some (.cell (some 0)) := by
    rw [hfirst, Option.bind_some, hsecond, Option.bind_some, hremove, Option.bind_some, hlast]
    rfl
  exact absurd hresult (by decide)

end LCOMaze
