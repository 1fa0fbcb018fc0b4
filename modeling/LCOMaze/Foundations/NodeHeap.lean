import Mathlib.Data.List.Nodup

/-!
# Singly linked nodes in memory

A memory of list nodes addressed by natural numbers.  {lit}`malloc` hands out a
fresh address each time, and a read through {lit}`NULL` or through a freed or
foreign address fails.  {lit}`Chain` describes the nodes met when following the
{lit}`next` pointers, with their addresses, so that a write elsewhere is seen not
to touch them.

Main results:

- Theorem {lit}`Chain.replace`: behind nodes that are not changed, the rest of a chain may be
  replaced.
- Theorem {lit}`Chain.frame`: a chain survives every change outside its addresses.
- Theorem {lit}`Chain.unique`: a pointer leads to one chain only.
- Theorem {lit}`Chain.append`: redirecting the last node extends a chain.
- Theorem {lit}`Chain.unlink`: redirecting a node past its successor removes it.
- Theorem {lit}`Grows.malloc`: allocating more nodes keeps those that were there and adds to them.
-/

namespace Foundations

/-- One node: the payload and the address of the next node. -/
structure Node (α : Type) where
  value : α
  next : Option Nat

/-- Allocated nodes by address; addresses from {lit}`fresh` on are unused. -/
structure NodeHeap (α : Type) where
  nodes : Nat → Option (Node α)
  fresh : Nat

namespace NodeHeap

variable {α : Type} {heap : NodeHeap α}

/-- A memory without nodes. -/
def empty : NodeHeap α := ⟨fun _ => none, 0⟩

/-- Allocate and initialize a node; its address is the old {lit}`fresh`. -/
def malloc (heap : NodeHeap α) (node : Node α) : NodeHeap α where
  nodes := Function.update heap.nodes heap.fresh (some node)
  fresh := heap.fresh + 1

/-- Read through a pointer; {lean}`none` is a fault. -/
def deref (heap : NodeHeap α) : Option Nat → Option (Node α)
  | none => none
  | some address => heap.nodes address

/-- The assignment {lit}`pointer->next = next`; {lean}`none` is a fault. -/
def setNext (heap : NodeHeap α) (pointer next : Option Nat) : Option (NodeHeap α) :=
  match pointer, heap.deref pointer with
  | some address, some node =>
      some { heap with
        nodes := Function.update heap.nodes address (some { node with next := next }) }
  | _, _ => none

/-- The call {lit}`free(pointer)`; {lean}`none` is a fault. -/
def free (heap : NodeHeap α) : Option Nat → Option (NodeHeap α)
  | none => some heap
  | some address =>
      (heap.nodes address).map fun _ =>
        { heap with nodes := Function.update heap.nodes address none }

/-- Following {lit}`next` from a pointer meets exactly these nodes, in this order,
before {lit}`NULL`. -/
def Chain (heap : NodeHeap α) : Option Nat → List (Nat × α) → Prop
  | pointer, [] => pointer = none
  | pointer, (address, value) :: rest =>
      pointer = some address ∧
        ∃ next, heap.nodes address = some ⟨value, next⟩ ∧ heap.Chain next rest

@[simp]
theorem chain_nil {pointer : Option Nat} : heap.Chain pointer [] ↔ pointer = none := Iff.rfl

/-- Behind nodes that are not changed, the rest of a chain may be replaced. -/
theorem Chain.replace {heap' : NodeHeap α} {pointer : Option Nat}
    {entries rest rest' : List (Nat × α)} (h : heap.Chain pointer (entries ++ rest))
    (hsame : ∀ entry ∈ entries, heap'.nodes entry.1 = heap.nodes entry.1)
    (hrest : ∀ pointer, heap.Chain pointer rest → heap'.Chain pointer rest') :
    heap'.Chain pointer (entries ++ rest') := by
  induction entries generalizing pointer with
  | nil => exact hrest pointer h
  | cons entry entries ih =>
      rcases h with ⟨hpointer, next, hnode, hnext⟩
      refine ⟨hpointer, next, ?_, ih hnext ?_⟩
      · rw [hsame entry List.mem_cons_self, hnode]
      · intro e he
        exact hsame e (List.mem_cons_of_mem entry he)

/-- A chain survives every change outside its addresses. -/
theorem Chain.frame {heap' : NodeHeap α} {pointer : Option Nat} {entries : List (Nat × α)}
    (h : heap.Chain pointer entries)
    (hsame : ∀ entry ∈ entries, heap'.nodes entry.1 = heap.nodes entry.1) :
    heap'.Chain pointer entries := by
  rw [← List.append_nil entries] at h ⊢
  exact h.replace hsame fun _ hnil => hnil

/-- Every node of a chain can be read. -/
theorem Chain.exists_node {pointer : Option Nat} {entries : List (Nat × α)}
    (h : heap.Chain pointer entries) {entry : Nat × α} (hentry : entry ∈ entries) :
    ∃ next, heap.nodes entry.1 = some ⟨entry.2, next⟩ := by
  induction entries generalizing pointer with
  | nil => simp at hentry
  | cons first rest ih =>
      rcases h with ⟨-, next, hnode, hrest⟩
      rcases List.mem_cons.mp hentry with rfl | hentry
      · exact ⟨next, hnode⟩
      · exact ih hrest hentry

/-- The final node of a chain points to {lit}`NULL`. -/
theorem Chain.final {pointer : Option Nat} {entries : List (Nat × α)} {last : Nat} {value : α}
    (h : heap.Chain pointer (entries ++ [(last, value)])) :
    heap.nodes last = some ⟨value, none⟩ := by
  induction entries generalizing pointer with
  | nil =>
      rcases h with ⟨-, next, hnode, rfl⟩
      exact hnode
  | cons entry rest ih =>
      rcases h with ⟨-, next, -, hrest⟩
      exact ih hrest

/-- A pointer leads to one chain only. -/
theorem Chain.unique {pointer : Option Nat} {entries entries' : List (Nat × α)}
    (h : heap.Chain pointer entries) (h' : heap.Chain pointer entries') : entries = entries' := by
  induction entries generalizing pointer entries' with
  | nil =>
      rw [chain_nil.mp h] at h'
      cases entries' with
      | nil => rfl
      | cons entry rest => cases h'.1
  | cons entry rest ih =>
      rcases h with ⟨hpointer, next, hnode, hrest⟩
      cases entries' with
      | nil =>
          rw [chain_nil.mp h'] at hpointer
          cases hpointer
      | cons entry' rest' =>
          rcases h' with ⟨hpointer', next', hnode', hrest'⟩
          have haddress : entry.1 = entry'.1 := Option.some.inj (hpointer.symm.trans hpointer')
          rw [haddress, hnode'] at hnode
          rcases Node.mk.inj (Option.some.inj hnode) with ⟨hvalue, hnext⟩
          rw [hnext] at hrest'
          rw [ih hrest hrest', Prod.ext haddress hvalue.symm]

/-- Redirecting the last node to a fresh one extends the chain by it. -/
theorem Chain.append {heap' : NodeHeap α} {pointer : Option Nat} {entries : List (Nat × α)}
    {last new : Nat} {old value : α}
    (h : heap.Chain pointer (entries ++ [(last, old)]))
    (hlast : heap'.nodes last = some ⟨old, some new⟩)
    (hnew : heap'.nodes new = some ⟨value, none⟩)
    (hsame : ∀ entry ∈ entries, heap'.nodes entry.1 = heap.nodes entry.1) :
    heap'.Chain pointer (entries ++ [(last, old), (new, value)]) := by
  refine h.replace hsame ?_
  rintro pointer ⟨hpointer, -⟩
  exact ⟨hpointer, some new, hlast, rfl, none, hnew, rfl⟩

/-- Redirecting a node past its successor removes the successor from the chain. -/
theorem Chain.unlink {heap' : NodeHeap α} {pointer next : Option Nat}
    {entries rest : List (Nat × α)} {before removed : Nat} {value gone : α}
    (h : heap.Chain pointer (entries ++ (before, value) :: (removed, gone) :: rest))
    (hgone : heap.nodes removed = some ⟨gone, next⟩)
    (hbefore : heap'.nodes before = some ⟨value, next⟩)
    (hsame : ∀ entry ∈ entries ++ rest, heap'.nodes entry.1 = heap.nodes entry.1) :
    heap'.Chain pointer (entries ++ (before, value) :: rest) := by
  refine h.replace (fun entry he => hsame entry (List.mem_append_left rest he)) ?_
  rintro pointer ⟨hpointer, _, -, -, next', hgone', hrest⟩
  have hnext : next' = next := by
    rw [hgone] at hgone'
    cases hgone'
    rfl
  subst hnext
  exact ⟨hpointer, next', hbefore,
    hrest.frame fun entry he => hsame entry (List.mem_append_right entries he)⟩

/-! ## Growing memory -/

/-- The node at the address that {lit}`malloc` returns. -/
theorem malloc_fresh (heap : NodeHeap α) (node : Node α) :
    (heap.malloc node).nodes heap.fresh = some node := Function.update_self ..

/-- All other addresses keep what they hold. -/
theorem malloc_of_ne (heap : NodeHeap α) (node : Node α) {address : Nat}
    (h : address ≠ heap.fresh) : (heap.malloc node).nodes address = heap.nodes address :=
  Function.update_of_ne h ..

/-- Nodes have been added, and none was changed or freed. -/
structure Grows (heap heap' : NodeHeap α) : Prop where
  fresh_le : heap.fresh ≤ heap'.fresh
  kept : ∀ address, address < heap.fresh → heap'.nodes address = heap.nodes address
  added : ∀ address, heap.fresh ≤ address → address < heap'.fresh → heap'.nodes address ≠ none

theorem Grows.refl (heap : NodeHeap α) : heap.Grows heap :=
  ⟨Nat.le_refl _, fun _ _ => rfl, fun _ hle hlt => absurd hlt (Nat.not_lt.mpr hle)⟩

theorem Grows.malloc {heap' : NodeHeap α} (h : heap.Grows heap') (node : Node α) :
    heap.Grows (heap'.malloc node) := by
  refine ⟨Nat.le_succ_of_le h.fresh_le, fun address hlt => ?_, fun address hle hlt => ?_⟩
  · have hne : address ≠ heap'.fresh := Nat.ne_of_lt (Nat.lt_of_lt_of_le hlt h.fresh_le)
    rw [malloc_of_ne heap' node hne, h.kept address hlt]
  · rcases Nat.lt_succ_iff_lt_or_eq.mp hlt with hlt | rfl
    · rw [malloc_of_ne heap' node (Nat.ne_of_lt hlt)]
      exact h.added address hle hlt
    · rw [malloc_fresh]
      exact Option.some_ne_none node

end NodeHeap
end Foundations
