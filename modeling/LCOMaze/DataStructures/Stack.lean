import Mathlib.Data.List.Basic

/-!
# The stack of {lit}`stack.c`

A stack is the chain of its {lit}`StackNode`s, read from {lit}`stack_top`, and
the counter {lit}`size`.  The two are kept equal by construction, so that the
guard {lit}`size == 0` of {lit}`stack_pop` is the emptiness of the chain.
-/

namespace LCOMaze

/-- {lit}`struct Stack`: the cells from {lit}`stack_top` down and their number. -/
structure Stack (α : Type) where
  nodes : List α
  size : Nat
  size_eq : size = nodes.length

namespace Stack

variable {α : Type}

/-- The initial value {lit}`{NULL, 0}`. -/
def empty : Stack α := ⟨[], 0, rfl⟩

/-- {lit}`stack_push`. -/
def stackPush (stack : Stack α) (cell : α) : Stack α where
  nodes := cell :: stack.nodes
  size := stack.size + 1
  size_eq := by simp [stack.size_eq]

/-- {lit}`stack_pop`: the removed cell, or {lean}`none` for {lit}`NULL`, and the
stack that is left. -/
def stackPop (stack : Stack α) : Option α × Stack α :=
  if stack.size = 0 then (none, stack)
  else
    (stack.nodes.head?,
      { nodes := stack.nodes.tail
        size := stack.size - 1
        size_eq := by simp [stack.size_eq] })

@[simp]
theorem empty_nodes : (empty : Stack α).nodes = [] := rfl

@[simp]
theorem empty_size : (empty : Stack α).size = 0 := rfl

@[simp]
theorem stackPush_nodes (stack : Stack α) (cell : α) :
    (stack.stackPush cell).nodes = cell :: stack.nodes := rfl

@[simp]
theorem stackPush_size (stack : Stack α) (cell : α) :
    (stack.stackPush cell).size = stack.size + 1 := rfl

/-- The stack is nonempty exactly when its chain has a top node. -/
theorem size_pos_iff {stack : Stack α} :
    0 < stack.size ↔ ∃ top rest, stack.nodes = top :: rest := by
  rw [stack.size_eq, List.length_pos_iff, List.ne_nil_iff_exists_cons]

/-- Popping a nonempty stack returns its top cell. -/
theorem stackPop_of_nodes {stack : Stack α} {top : α} {rest : List α}
    (h : stack.nodes = top :: rest) :
    stack.stackPop = (some top, ⟨rest, rest.length, rfl⟩) := by
  have hsize : stack.size = rest.length + 1 := by simp [stack.size_eq, h]
  simp [stackPop, h, hsize]

end Stack
end LCOMaze
