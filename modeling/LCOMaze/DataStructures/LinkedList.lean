import LCOMaze.Foundations.NodeHeap
import Mathlib.Data.Finset.Card
import Mathlib.Data.Finset.Range

/-!
# The linked list of {lit}`linked_list.c`

The operations are translated with their pointers: {lit}`head`, {lit}`last` and
{lit}`size` are separate and every access goes through the memory of nodes.
{lean}`none` stands for an access through {lit}`NULL` or for a loop over a cyclic
chain.  A traversal gets as much fuel as nodes have ever been allocated.

Main results:

- Theorem {lit}`IsList.push`: appending to a list whose {lit}`last` is its final node.
- Theorems {lit}`IsList.popFirst`, {lit}`IsList.first` and {lit}`IsList.last`: the two ends.
- Theorem {lit}`IsList.getMinimumDistance`: the first cell of least distance is found.
- Theorem {lit}`IsList.remove`: removing deletes exactly one node.
- Theorem {lit}`IsList.contains`: the search decides membership.
-/

namespace LCOMaze

open Foundations

variable {α : Type} [DecidableEq α]

/-! ## The translated operations -/

/-- {lit}`struct LinkedList`. -/
structure LinkedList where
  head : Option Nat
  last : Option Nat
  size : Int
deriving DecidableEq, Repr

/-- The initial value {lit}`{NULL, NULL, 0}`. -/
def LinkedList.empty : LinkedList := ⟨none, none, 0⟩

/-- {lit}`linked_list_push`. -/
def linkedListPush (heap : NodeHeap α) (list : LinkedList) (cell : α) :
    Option (NodeHeap α × LinkedList) :=
  let newNode := some heap.fresh
  let heap := heap.malloc ⟨cell, none⟩
  if list.size = 0 then
    some (heap, { head := newNode, last := newNode, size := list.size + 1 })
  else
    (heap.setNext list.last newNode).map fun heap =>
      (heap, { list with last := newNode, size := list.size + 1 })

/-- {lit}`linked_list_pop_first`, with the cell that it returns; {lean}`none` there is
{lit}`NULL`. -/
def linkedListPopFirst (heap : NodeHeap α) (list : LinkedList) :
    Option ((NodeHeap α × LinkedList) × Option α) :=
  if list.size = 0 then some ((heap, list), none)
  else
    (heap.deref list.head).bind fun firstNode =>
      (heap.free list.head).map fun heap =>
        ((heap, { list with head := firstNode.next, size := list.size - 1 }),
          some firstNode.value)

/-- {lit}`linked_list_first`. -/
def linkedListFirst (heap : NodeHeap α) (list : LinkedList) : Option (Option α) :=
  if list.size = 0 then some none
  else (heap.deref list.head).map fun node => some node.value

/-- {lit}`linked_list_last`. -/
def linkedListLast (heap : NodeHeap α) (list : LinkedList) : Option (Option α) :=
  if list.size = 0 then some none
  else (heap.deref list.last).map fun node => some node.value

/-- The loop of {lit}`get_minimum_distance`. -/
def minimumLoop (heap : NodeHeap α) (dist : α → Int) :
    Nat → Option Nat → α → Int → Option α
  | _, none, minCell, _ => some minCell
  | 0, some _, _, _ => none
  | fuel + 1, some currentNode, minCell, minDist =>
      (heap.nodes currentNode).bind fun node =>
        if dist node.value < minDist then
          minimumLoop heap dist fuel node.next node.value (dist node.value)
        else minimumLoop heap dist fuel node.next minCell minDist

/-- {lit}`get_minimum_distance`, reading the distances of the cells through
{lit}`dist`; the inner {lean}`none` is the returned {lit}`NULL`. -/
def getMinimumDistance (heap : NodeHeap α) (dist : α → Int) (list : LinkedList) :
    Option (Option α) :=
  if list.size = 0 then some none
  else
    (heap.deref list.head).bind fun first =>
      (minimumLoop heap dist heap.fresh list.head first.value (dist first.value)).map some

/-- The loop of {lit}`linked_list_remove`. -/
def removeLoop (heap : NodeHeap α) (list : LinkedList) (cell : α) :
    Nat → Option Nat → Option Nat → Option (NodeHeap α × LinkedList)
  | _, none, _ => some (heap, list)
  | 0, some _, _ => none
  | fuel + 1, some currentNode, prevNode =>
      (heap.nodes currentNode).bind fun node =>
        if node.value = cell then
          match prevNode with
          | none => some (heap, { list with head := node.next, size := list.size - 1 })
          | some _ =>
              (heap.setNext prevNode node.next).map fun heap =>
                (heap, { list with size := list.size - 1 })
        else removeLoop heap list cell fuel node.next (some currentNode)

/-- {lit}`linked_list_remove`. -/
def linkedListRemove (heap : NodeHeap α) (list : LinkedList) (cell : α) :
    Option (NodeHeap α × LinkedList) :=
  removeLoop heap list cell heap.fresh list.head none

/-- The loop of {lit}`linked_list_contains`. -/
def containsLoop (heap : NodeHeap α) (cell : α) : Nat → Option Nat → Option Bool
  | _, none => some false
  | 0, some _ => none
  | fuel + 1, some currentNode =>
      (heap.nodes currentNode).bind fun node =>
        if node.value = cell then some true else containsLoop heap cell fuel node.next

/-- {lit}`linked_list_contains`. -/
def linkedListContains (heap : NodeHeap α) (list : LinkedList) (cell : α) : Option Bool :=
  containsLoop heap cell heap.fresh list.head

/-! ## The cell of least distance -/

/-- The first cell of least distance among {lit}`best` and the cells after it. -/
def leastCell (dist : α → Int) (best : α) : List α → α
  | [] => best
  | cell :: cells =>
      if dist cell < dist best then leastCell dist cell cells else leastCell dist best cells

omit [DecidableEq α] in
theorem leastCell_le (dist : α → Int) (best : α) (cells : List α) :
    ∀ cell ∈ best :: cells, dist (leastCell dist best cells) ≤ dist cell := by
  induction cells generalizing best with
  | nil => simp [leastCell]
  | cons first cells ih =>
      intro cell hcell
      simp only [leastCell]
      rcases List.mem_cons.mp hcell with rfl | hcell
      · split_ifs with hlt
        · exact (ih first first List.mem_cons_self).trans hlt.le
        · exact ih cell cell List.mem_cons_self
      · rcases List.mem_cons.mp hcell with rfl | hcell
        · split_ifs with hlt
          · exact ih cell cell List.mem_cons_self
          · exact (ih best best List.mem_cons_self).trans (not_lt.mp hlt)
        · split_ifs
          · exact ih first cell (List.mem_cons_of_mem first hcell)
          · exact ih best cell (List.mem_cons_of_mem best hcell)

omit [DecidableEq α] in
/-- The cells before it have larger distances. -/
theorem leastCell_split (dist : α → Int) (best : α) (cells : List α) :
    ∃ before after, best :: cells = before ++ leastCell dist best cells :: after ∧
      ∀ cell ∈ before, dist (leastCell dist best cells) < dist cell := by
  induction cells generalizing best with
  | nil => exact ⟨[], [], rfl, by simp⟩
  | cons cell cells ih =>
      simp only [leastCell]
      split_ifs with hlt
      · rcases ih cell with ⟨before, after, hsplit, hless⟩
        refine ⟨best :: before, after, by rw [hsplit, List.cons_append], ?_⟩
        intro other hother
        rcases List.mem_cons.mp hother with rfl | hother
        · exact (leastCell_le dist cell cells cell List.mem_cons_self).trans_lt hlt
        · exact hless other hother
      · rcases ih best with ⟨before, after, hsplit, hless⟩
        cases before with
        | nil =>
            rw [List.nil_append, List.cons.injEq] at hsplit
            exact ⟨[], cell :: cells, by rw [← hsplit.1, List.nil_append], by simp⟩
        | cons first before =>
            rw [List.cons_append, List.cons.injEq] at hsplit
            rcases hsplit with ⟨rfl, hsplit⟩
            refine ⟨best :: cell :: before, after, ?_, ?_⟩
            · rw [List.cons_append, List.cons_append, ← hsplit]
            · intro other hother
              rcases List.mem_cons.mp hother with rfl | hother
              · exact hless other List.mem_cons_self
              · rcases List.mem_cons.mp hother with rfl | hother
                · exact (hless best List.mem_cons_self).trans_le (not_lt.mp hlt)
                · exact hless other (List.mem_cons_of_mem best hother)

omit [DecidableEq α] in
theorem leastCell_mem (dist : α → Int) (best : α) (cells : List α) :
    leastCell dist best cells ∈ best :: cells := by
  rcases leastCell_split dist best cells with ⟨before, after, hsplit, -⟩
  rw [hsplit]
  exact List.mem_append_right before List.mem_cons_self

omit [DecidableEq α] in
/-- It is the first cell that no other cell is below. -/
theorem find?_eq_leastCell (dist : α → Int) (best : α) (cells : List α) :
    ((best :: cells).find? fun cell => (best :: cells).all (dist cell ≤ dist ·)) =
      some (leastCell dist best cells) := by
  rw [List.find?_eq_some_iff_append]
  rcases leastCell_split dist best cells with ⟨before, after, hsplit, hless⟩
  constructor
  · simpa using leastCell_le dist best cells
  · refine ⟨before, after, hsplit, fun cell hcell => ?_⟩
    rw [Bool.not_eq_true', List.all_eq_false]
    exact ⟨_, leastCell_mem dist best cells, by simpa using hless cell hcell⟩

/-! ## Lists in memory -/

/-- The nodes reachable from {lit}`head`, as many as {lit}`size` says. -/
structure IsList (heap : NodeHeap α) (list : LinkedList) (entries : List (Nat × α)) : Prop where
  chain : heap.Chain list.head entries
  nodup : (entries.map Prod.fst).Nodup
  allocated : ∀ entry ∈ entries, entry.1 < heap.fresh
  size_eq : list.size = entries.length

/-- The pointer {lit}`last` of a nonempty list is its final node. -/
def LastCorrect (list : LinkedList) (entries : List (Nat × α)) : Prop :=
  entries ≠ [] → list.last = entries.getLast?.map Prod.fst

/-- A list that holds these cells from {lit}`head` to {lit}`last`. -/
def HoldsCells (heap : NodeHeap α) (list : LinkedList) (cells : List α) : Prop :=
  ∃ entries, IsList heap list entries ∧ LastCorrect list entries ∧
    entries.map Prod.snd = cells

namespace IsList

variable {heap : NodeHeap α} {list : LinkedList} {entries : List (Nat × α)}

omit [DecidableEq α] in
theorem empty (heap : NodeHeap α) : IsList heap LinkedList.empty ([] : List (Nat × α)) :=
  ⟨rfl, List.nodup_nil, by simp, rfl⟩

omit [DecidableEq α] in
/-- A list never has more nodes than were allocated. -/
theorem length_le_fresh (h : IsList heap list entries) : entries.length ≤ heap.fresh := by
  have hsub : (entries.map Prod.fst).toFinset ⊆ Finset.range heap.fresh := by
    intro address haddress
    rw [List.mem_toFinset, List.mem_map] at haddress
    rcases haddress with ⟨entry, hentry, rfl⟩
    exact Finset.mem_range.mpr (h.allocated entry hentry)
  have hcard := Finset.card_le_card hsub
  rw [List.toFinset_card_of_nodup h.nodup, List.length_map, Finset.card_range] at hcard
  exact hcard

omit [DecidableEq α] in
/-- The address of the next allocation is not in use. -/
theorem fresh_not_mem (h : IsList heap list entries) {entry : Nat × α}
    (hentry : entry ∈ entries) : entry.1 ≠ heap.fresh :=
  (h.allocated entry hentry).ne

omit [DecidableEq α] in
/-- The next address that {lit}`malloc` returns is new to the list. -/
theorem nodup_concat_fresh (h : IsList heap list entries) (cell : α) :
    ((entries ++ [(heap.fresh, cell)]).map Prod.fst).Nodup := by
  rw [List.map_append, List.nodup_append]
  refine ⟨h.nodup, by simp, ?_⟩
  intro a ha b hb
  rcases List.mem_map.mp ha with ⟨entry, hentry, rfl⟩
  rw [List.map_singleton, List.mem_singleton] at hb
  rw [hb]
  exact h.fresh_not_mem hentry

omit [DecidableEq α] in
theorem allocated_concat_fresh (h : IsList heap list entries) (cell : α) :
    ∀ entry ∈ entries ++ [(heap.fresh, cell)], entry.1 < heap.fresh + 1 := by
  intro entry hentry
  rw [List.mem_append, List.mem_singleton] at hentry
  rcases hentry with hentry | rfl
  · exact Nat.lt_succ_of_lt (h.allocated entry hentry)
  · exact Nat.lt_succ_self heap.fresh

omit [DecidableEq α] in
/-- {lit}`linked_list_push` appends the cell, when {lit}`last` is the final node. -/
theorem push (h : IsList heap list entries) (hlast : LastCorrect list entries) (cell : α) :
    ∃ heap' list', linkedListPush heap list cell = some (heap', list') ∧
      IsList heap' list' (entries ++ [(heap.fresh, cell)]) ∧
      LastCorrect list' (entries ++ [(heap.fresh, cell)]) := by
  have hfresh := h.nodup_concat_fresh cell
  have halloc := h.allocated_concat_fresh cell
  rcases List.eq_nil_or_concat entries with rfl | ⟨before, ⟨last, old⟩, rfl⟩
  · -- the first node of an empty list
    have hsize : list.size = 0 := by simpa using h.size_eq
    refine ⟨_, _, by rw [linkedListPush, if_pos hsize], ⟨?_, hfresh, halloc, ?_⟩, fun _ => rfl⟩
    · exact ⟨rfl, none, by simp [NodeHeap.malloc], rfl⟩
    · simp [hsize]
  · -- the new node goes behind the old last one
    rw [List.concat_eq_append] at *
    have hne : before ++ [(last, old)] ≠ [] := by simp
    have hlast' : list.last = some last := by
      rw [hlast hne]
      simp
    have hsize : list.size ≠ 0 := by
      rw [h.size_eq]
      simp
      omega
    rcases h.chain.exists_node (List.mem_append_right before List.mem_cons_self) with
      ⟨next, hnode⟩
    have hmem : (last, old) ∈ before ++ [(last, old)] := by simp
    have hlt : last ≠ heap.fresh := h.fresh_not_mem hmem
    have hset : (heap.malloc ⟨cell, none⟩).setNext list.last (some heap.fresh) = some
        { nodes := Function.update (heap.malloc ⟨cell, none⟩).nodes last
            (some ⟨old, some heap.fresh⟩)
          fresh := heap.fresh + 1 } := by
      simp only at hnode
      simp [NodeHeap.setNext, NodeHeap.deref, NodeHeap.malloc, hlast', hlt, hnode]
    refine ⟨_, _, by rw [linkedListPush, if_neg hsize, hset]; rfl,
      ⟨?_, hfresh, halloc, ?_⟩, fun _ => by simp⟩
    · rw [List.append_assoc]
      apply h.chain.append
      · simp
      · simp [NodeHeap.malloc, hlt.symm]
      · intro entry hentry
        have hentry' : entry ∈ before ++ [(last, old)] := List.mem_append_left _ hentry
        have hdistinct : entry.1 ≠ last := by
          have hnodup := h.nodup
          rw [List.map_append, List.nodup_append] at hnodup
          exact hnodup.2.2 entry.1 (List.mem_map_of_mem hentry) last (by simp)
        simp [NodeHeap.malloc, hdistinct, h.fresh_not_mem hentry']
    · rw [h.size_eq]
      simp
      omega

omit [DecidableEq α] in
/-- The test for an empty list. -/
theorem size_eq_zero_iff (h : IsList heap list entries) : list.size = 0 ↔ entries = [] := by
  rw [h.size_eq, Int.natCast_eq_zero, List.length_eq_zero_iff]

omit [DecidableEq α] in
/-- {lit}`linked_list_pop_first` removes the first node and leaves {lit}`last` alone. -/
theorem popFirst {address : Nat} {cell : α} {rest : List (Nat × α)}
    (h : IsList heap list ((address, cell) :: rest)) :
    ∃ heap' list', linkedListPopFirst heap list = some ((heap', list'), some cell) ∧
      IsList heap' list' rest ∧ list'.last = list.last := by
  have hsize : ¬list.size = 0 := by
    rw [h.size_eq_zero_iff]
    exact List.cons_ne_nil _ _
  rcases h.chain with ⟨hhead, next, hnode, hrest⟩
  have hnodup := h.nodup
  rw [List.map_cons, List.nodup_cons] at hnodup
  refine ⟨{ heap with nodes := Function.update heap.nodes address none },
    { list with head := next, size := list.size - 1 }, ?_, ⟨?_, hnodup.2, ?_, ?_⟩, rfl⟩
  · simp [linkedListPopFirst, if_neg hsize, hhead, NodeHeap.deref, NodeHeap.free, hnode]
  · apply hrest.frame
    intro entry hentry
    have hne : entry.1 ≠ address := by
      intro heq
      exact hnodup.1 (List.mem_map.mpr ⟨entry, hentry, heq⟩)
    simp [hne]
  · intro entry hentry
    exact h.allocated entry (List.mem_cons_of_mem _ hentry)
  · rw [h.size_eq]
    simp

omit [DecidableEq α] in
/-- {lit}`linked_list_first` returns the first cell. -/
theorem first (h : IsList heap list entries) :
    linkedListFirst heap list = some (entries.head?.map Prod.snd) := by
  rw [linkedListFirst]
  split_ifs with hsize
  · rw [h.size_eq_zero_iff.mp hsize]
    rfl
  · cases entries with
    | nil => exact absurd (h.size_eq_zero_iff.mpr rfl) hsize
    | cons entry rest =>
        rcases h.chain with ⟨hhead, next, hnode, -⟩
        rw [hhead, NodeHeap.deref, hnode]
        rfl

omit [DecidableEq α] in
/-- {lit}`linked_list_last` returns the last cell, when {lit}`last` is the final node. -/
theorem last (h : IsList heap list entries) (hlast : LastCorrect list entries) :
    linkedListLast heap list = some (entries.getLast?.map Prod.snd) := by
  rw [linkedListLast]
  split_ifs with hsize
  · rw [h.size_eq_zero_iff.mp hsize]
    rfl
  · have hne : entries ≠ [] := fun hnil => hsize (h.size_eq_zero_iff.mpr hnil)
    rcases h.chain.exists_node (List.getLast_mem hne) with ⟨next, hnode⟩
    rw [hlast hne, List.getLast?_eq_some_getLast hne, Option.map_some, NodeHeap.deref, hnode]
    rfl

/-- {lit}`linked_list_contains` decides membership among the cells. -/
theorem contains (h : IsList heap list entries) (cell : α) :
    linkedListContains heap list cell = some (decide (cell ∈ entries.map Prod.snd)) := by
  have hloop : ∀ (entries : List (Nat × α)) (pointer : Option Nat) (fuel : Nat),
      heap.Chain pointer entries → entries.length ≤ fuel →
      containsLoop heap cell fuel pointer = some (decide (cell ∈ entries.map Prod.snd)) := by
    intro entries
    induction entries with
    | nil =>
        intro pointer fuel hchain _
        rw [NodeHeap.chain_nil.mp hchain]
        cases fuel <;> simp [containsLoop]
    | cons entry rest ih =>
        intro pointer fuel hchain hfuel
        rcases hchain with ⟨rfl, next, hnode, hrest⟩
        cases fuel with
        | zero => simp at hfuel
        | succ fuel =>
            simp only [containsLoop, hnode, Option.bind_some, List.map_cons, List.mem_cons]
            by_cases heq : entry.2 = cell
            · simp [heq]
            · rw [if_neg heq, ih next fuel hrest (by simpa using hfuel)]
              simp [Ne.symm heq]
  exact hloop entries list.head heap.fresh h.chain h.length_le_fresh

omit [DecidableEq α] in
/-- {lit}`get_minimum_distance` finds the first cell of least distance. -/
theorem getMinimumDistance {address : Nat} {first : α} {rest : List (Nat × α)}
    (h : IsList heap list ((address, first) :: rest)) (dist : α → Int) :
    LCOMaze.getMinimumDistance heap dist list =
      some (some (leastCell dist first (rest.map Prod.snd))) := by
  have hloop : ∀ (entries : List (Nat × α)) (pointer : Option Nat) (fuel : Nat) (best : α),
      heap.Chain pointer entries → entries.length ≤ fuel →
      minimumLoop heap dist fuel pointer best (dist best) =
        some (leastCell dist best (entries.map Prod.snd)) := by
    intro entries
    induction entries with
    | nil =>
        intro pointer fuel best hchain _
        rw [NodeHeap.chain_nil.mp hchain]
        cases fuel <;> rfl
    | cons entry rest ih =>
        intro pointer fuel best hchain hfuel
        rcases hchain with ⟨rfl, next, hnode, hrest⟩
        cases fuel with
        | zero => simp at hfuel
        | succ fuel =>
            have hfuel' : rest.length ≤ fuel := by simpa using hfuel
            simp only [minimumLoop, hnode, Option.bind_some, List.map_cons, leastCell]
            split_ifs
            · exact ih next fuel entry.2 hrest hfuel'
            · exact ih next fuel best hrest hfuel'
  have hsize : list.size ≠ 0 := by
    rw [h.size_eq]
    simp
    omega
  rcases h.chain.exists_node List.mem_cons_self with ⟨next, hnode⟩
  have hderef : heap.deref list.head = some ⟨first, next⟩ := by
    rw [h.chain.1]
    exact hnode
  have hrun := hloop _ list.head heap.fresh first h.chain h.length_le_fresh
  rw [LCOMaze.getMinimumDistance, if_neg hsize, hderef, Option.bind_some, hrun]
  simp [leastCell]

omit [DecidableEq α] in
/-- A list that holds a cell has one of least distance. -/
theorem exists_minimum (h : IsList heap list entries) (dist : α → Int) {cell : α}
    (hcell : cell ∈ entries.map Prod.snd) :
    ∃ current, LCOMaze.getMinimumDistance heap dist list = some (some current) ∧
      current ∈ entries.map Prod.snd ∧ ∀ w ∈ entries.map Prod.snd, dist current ≤ dist w := by
  cases entries with
  | nil => simp at hcell
  | cons entry rest =>
      exact ⟨_, h.getMinimumDistance dist, leastCell_mem dist entry.2 (rest.map Prod.snd),
        leastCell_le dist entry.2 (rest.map Prod.snd)⟩

/-! ## Removal -/

/-- No iteration of the loop touches {lit}`last`. -/
theorem removeLoop_last {heap' : NodeHeap α} {list' : LinkedList} {cell : α} {fuel : Nat}
    {current prev : Option Nat}
    (hrun : removeLoop heap list cell fuel current prev = some (heap', list')) :
    list'.last = list.last := by
  induction fuel generalizing current prev with
  | zero =>
      cases current with
      | none =>
          cases hrun
          rfl
      | some address => cases hrun
  | succ fuel ih =>
      cases current with
      | none =>
          cases hrun
          rfl
      | some address =>
          simp only [removeLoop, Option.bind_eq_some_iff] at hrun
          rcases hrun with ⟨node, -, hrun⟩
          split_ifs at hrun with hvalue
          · cases prev with
            | none =>
                cases hrun
                rfl
            | some before =>
                simp only [Option.map_eq_some_iff] at hrun
                rcases hrun with ⟨heap'', -, hrun⟩
                cases hrun
                rfl
          · exact ih hrun

/-- {lit}`linked_list_remove` leaves a list alone that does not hold the cell. -/
theorem remove_absent {cell : α} (h : IsList heap list entries)
    (habsent : ∀ entry ∈ entries, entry.2 ≠ cell) :
    linkedListRemove heap list cell = some (heap, list) := by
  have hloop : ∀ (todo : List (Nat × α)) (pointer prev : Option Nat) (fuel : Nat),
      (∀ entry ∈ todo, entry.2 ≠ cell) → heap.Chain pointer todo → todo.length ≤ fuel →
      removeLoop heap list cell fuel pointer prev = some (heap, list) := by
    intro todo
    induction todo with
    | nil =>
        intro pointer prev fuel _ hchain _
        rw [NodeHeap.chain_nil.mp hchain]
        cases fuel <;> rfl
    | cons entry rest ih =>
        intro pointer prev fuel hne hchain hfuel
        rcases hchain with ⟨rfl, next, hnode, hrest⟩
        cases fuel with
        | zero => simp at hfuel
        | succ fuel =>
            simp only [removeLoop, hnode, Option.bind_some,
              if_neg (hne entry List.mem_cons_self)]
            exact ih next (some entry.1) fuel
              (fun later hlater => hne later (List.mem_cons_of_mem entry hlater)) hrest
              (by simpa using hfuel)
  exact hloop entries list.head none heap.fresh habsent h.chain h.length_le_fresh

/-- The branch of the loop that has found the cell. -/
theorem unlinkHere {before after : List (Nat × α)} {address : Nat} {cell : α}
    {next : Option Nat} (h : IsList heap list (before ++ (address, cell) :: after))
    (hnode : heap.nodes address = some ⟨cell, next⟩) (hafter : heap.Chain next after)
    (fuel : Nat) :
    ∃ heap' list', removeLoop heap list cell (fuel + 1) (some address)
        (before.getLast?.map Prod.fst) = some (heap', list') ∧
      IsList heap' list' (before ++ after) := by
  have hsub : (before ++ after).Sublist (before ++ (address, cell) :: after) :=
    List.Sublist.append_left (List.sublist_cons_self _ _) before
  have hnodup : ((before ++ after).map Prod.fst).Nodup := h.nodup.sublist (hsub.map Prod.fst)
  have halloc : ∀ entry ∈ before ++ after, entry.1 < heap.fresh := by
    intro entry hentry
    exact h.allocated entry (hsub.subset hentry)
  have hsize : list.size - 1 = ((before ++ after).length : Int) := by
    rw [h.size_eq]
    simp
    omega
  rcases List.eq_nil_or_concat before with rfl | ⟨passed, ⟨last, old⟩, rfl⟩
  · -- the cell is in the first node
    exact ⟨heap, { list with head := next, size := list.size - 1 },
      by simp [removeLoop, hnode], hafter, hnodup, halloc, hsize⟩
  · -- the node before it is redirected
    rw [List.concat_eq_append] at *
    have hchain := h.chain
    rw [List.append_assoc, List.singleton_append] at hchain
    have hmem : (last, old) ∈ passed ++ (last, old) :: (address, cell) :: after := by simp
    rcases hchain.exists_node hmem with ⟨following, hlast⟩
    simp only at hlast
    refine ⟨{ heap with nodes := Function.update heap.nodes last (some ⟨old, next⟩) },
      { list with size := list.size - 1 }, ?_, ?_, hnodup, halloc, hsize⟩
    · simp [removeLoop, hnode, NodeHeap.setNext, NodeHeap.deref, hlast]
    · rw [List.append_assoc, List.singleton_append]
      apply hchain.unlink hnode
      · simp
      · intro entry hentry
        have hdistinct : entry.1 ≠ last := by
          intro heq
          have hnodup' := hnodup
          simp only [List.append_assoc, List.singleton_append, List.map_append, List.map_cons,
            List.nodup_append, List.nodup_cons, List.mem_cons, List.mem_map] at hnodup'
          rcases List.mem_append.mp hentry with hpassed | htail
          · exact hnodup'.2.2 entry.1 ⟨entry, hpassed, rfl⟩ last (Or.inl rfl) heq
          · exact hnodup'.2.1.1 ⟨entry, htail, heq⟩
        simp [hdistinct]

/-- {lit}`linked_list_remove` deletes the first node of the cell. -/
theorem remove {before after : List (Nat × α)} {address : Nat} {cell : α}
    (h : IsList heap list (before ++ (address, cell) :: after))
    (hbefore : ∀ entry ∈ before, entry.2 ≠ cell) :
    ∃ heap' list', linkedListRemove heap list cell = some (heap', list') ∧
      IsList heap' list' (before ++ after) := by
  -- the loop has passed `passed` and still has `todo` in front of the cell
  have hloop : ∀ (todo passed : List (Nat × α)) (pointer : Option Nat) (fuel : Nat),
      before = passed ++ todo → heap.Chain pointer (todo ++ (address, cell) :: after) →
      todo.length < fuel →
      ∃ heap' list', removeLoop heap list cell fuel pointer
          (passed.getLast?.map Prod.fst) = some (heap', list') ∧
        IsList heap' list' (before ++ after) := by
    intro todo
    induction todo with
    | nil =>
        intro passed pointer fuel hsplit hchain hfuel
        rcases hchain with ⟨rfl, next, hnode, hafter⟩
        cases fuel with
        | zero => simp at hfuel
        | succ fuel =>
            rw [List.append_nil] at hsplit
            subst hsplit
            exact h.unlinkHere hnode hafter fuel
    | cons entry todo ih =>
        intro passed pointer fuel hsplit hchain hfuel
        rcases hchain with ⟨rfl, next, hnode, hrest⟩
        cases fuel with
        | zero => simp at hfuel
        | succ fuel =>
            have hne : entry.2 ≠ cell := hbefore entry (by simp [hsplit])
            have hrun := ih (passed ++ [entry]) next fuel (by simp [hsplit]) hrest
              (by simpa using hfuel)
            simpa [removeLoop, hnode, hne] using hrun
  have hfuel : before.length < heap.fresh := by
    have hlength := h.length_le_fresh
    simp at hlength
    omega
  exact hloop before [] list.head heap.fresh rfl h.chain hfuel

end IsList

end LCOMaze
