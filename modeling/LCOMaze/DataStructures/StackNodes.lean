import LCOMaze.DataStructures.Stack
import LCOMaze.Foundations.NodeHeap
import LCOMaze.Foundations.Refinement

/-!
# The stack in memory

{lit}`stack.c` keeps the cells in nodes that {lit}`stack_push` allocates and nothing frees.

Main results:

- Theorem {lit}`HoldsStack.push` and {lit}`HoldsStack.pop`: each function does in memory what it
  does on the chain of cells.
- Theorem {lit}`stack_refines`: so does every run of calls, and the nodes of all pushes stay
  allocated.
-/

namespace LCOMaze

open Foundations

variable {α : Type}

/-! ## The translated operations -/

/-- {lit}`struct Stack` as it lies in memory. -/
structure StackHead where
  stackTop : Option Nat
  size : Int
deriving DecidableEq, Repr

/-- The initial value {lit}`{NULL, 0}`. -/
def StackHead.empty : StackHead := ⟨none, 0⟩

/-- {lit}`stack_push`. -/
def stackPush (heap : NodeHeap α) (stack : StackHead) (cell : α) : NodeHeap α × StackHead :=
  let newNode := some heap.fresh
  (heap.malloc ⟨cell, stack.stackTop⟩, { stackTop := newNode, size := stack.size + 1 })

/-- {lit}`stack_pop`, with the cell that it returns; {lean}`none` there is {lit}`NULL`. -/
def stackPop (heap : NodeHeap α) (stack : StackHead) : Option (Option α × StackHead) :=
  if stack.size = 0 then some (none, stack)
  else
    (heap.deref stack.stackTop).map fun topNode =>
      (some topNode.value, { stackTop := topNode.next, size := stack.size - 1 })

/-- {lit}`stack_top`. -/
def stackTop (heap : NodeHeap α) (stack : StackHead) : Option (Option α) :=
  if stack.size = 0 then some none
  else (heap.deref stack.stackTop).map fun topNode => some topNode.value

/-! ## Stacks in memory -/

/-- From {lit}`stack_top` on, the memory holds the cells of the stack. -/
def HoldsStack (heap : NodeHeap α) (head : StackHead) (stack : Stack α) : Prop :=
  ∃ entries, heap.Chain head.stackTop entries ∧ (∀ entry ∈ entries, entry.1 < heap.fresh) ∧
    entries.map Prod.snd = stack.nodes ∧ head.size = stack.size

namespace HoldsStack

variable {heap : NodeHeap α} {head : StackHead} {stack : Stack α}

theorem empty (heap : NodeHeap α) : HoldsStack heap StackHead.empty (Stack.empty : Stack α) :=
  ⟨[], rfl, by simp, rfl, rfl⟩

theorem size_eq_zero_iff (h : HoldsStack heap head stack) : head.size = 0 ↔ stack.size = 0 := by
  rcases h with ⟨entries, -, -, -, hsize⟩
  rw [hsize, Int.natCast_eq_zero]

/-- {lit}`stack_push` puts a fresh node on top. -/
theorem push (h : HoldsStack heap head stack) (cell : α) :
    HoldsStack (LCOMaze.stackPush heap head cell).1 (LCOMaze.stackPush heap head cell).2
      (stack.stackPush cell) := by
  rcases h with ⟨entries, hchain, hallocated, hnodes, hsize⟩
  refine ⟨(heap.fresh, cell) :: entries, ⟨rfl, head.stackTop, ?_, ?_⟩, ?_, ?_, ?_⟩
  · exact heap.malloc_fresh _
  · refine hchain.frame fun entry hentry => ?_
    exact heap.malloc_of_ne _ (Nat.ne_of_lt (hallocated entry hentry))
  · intro entry hentry
    rcases List.mem_cons.mp hentry with rfl | hentry
    · exact Nat.lt_succ_self _
    · exact Nat.lt_succ_of_lt (hallocated entry hentry)
  · rw [List.map_cons, hnodes, Stack.stackPush_nodes]
  · change head.size + 1 = ((stack.size + 1 : Nat) : Int)
    omega

/-- {lit}`stack_pop` returns the top cell and leaves the nodes alone. -/
theorem pop (h : HoldsStack heap head stack) :
    ∃ head', LCOMaze.stackPop heap head = some (stack.stackPop.1, head') ∧
      HoldsStack heap head' stack.stackPop.2 := by
  have hempty := h.size_eq_zero_iff
  rcases h with ⟨entries, hchain, hallocated, hnodes, hsize⟩
  by_cases hzero : stack.size = 0
  · refine ⟨head, ?_, ?_⟩
    · rw [LCOMaze.stackPop, if_pos (hempty.mpr hzero), Stack.stackPop, if_pos hzero]
    · rw [Stack.stackPop, if_pos hzero]
      exact ⟨entries, hchain, hallocated, hnodes, hsize⟩
  · rcases Stack.size_pos_iff.mp (Nat.pos_of_ne_zero hzero) with ⟨top, rest, htop⟩
    rw [htop] at hnodes
    rcases List.map_eq_cons_iff.mp hnodes with ⟨⟨address, cell⟩, entries, rfl, rfl, hrest⟩
    rcases hchain with ⟨hpointer, next, hnode, hnext⟩
    refine ⟨⟨next, head.size - 1⟩, ?_, entries, ?_⟩
    · rw [LCOMaze.stackPop, if_neg (mt hempty.mp hzero), hpointer, NodeHeap.deref, hnode,
        Stack.stackPop_of_nodes htop]
      rfl
    · rw [Stack.stackPop_of_nodes htop]
      have hstill := fun entry hentry => hallocated entry (List.mem_cons_of_mem _ hentry)
      refine ⟨hnext, hstill, hrest, ?_⟩
      rw [hsize, stack.size_eq, htop]
      simp

/-- {lit}`stack_top` returns the top cell. -/
theorem top (h : HoldsStack heap head stack) :
    LCOMaze.stackTop heap head = some stack.nodes.head? := by
  have hempty := h.size_eq_zero_iff
  rcases h with ⟨entries, hchain, -, hnodes, -⟩
  rw [stack.size_eq, List.length_eq_zero_iff] at hempty
  cases entries with
  | nil =>
      rw [LCOMaze.stackTop, if_pos (hempty.mpr hnodes.symm), ← hnodes]
      rfl
  | cons entry entries =>
      have hne : stack.nodes ≠ [] := by simp [← hnodes]
      rcases hchain with ⟨hpointer, next, hnode, -⟩
      rw [LCOMaze.stackTop, if_neg (mt hempty.mp hne), hpointer, NodeHeap.deref, hnode, ← hnodes]
      rfl

end HoldsStack

/-! ## Calls -/

/-- A call of a function of {lit}`stack.c`. -/
inductive StackOp (α : Type) where
  | push (cell : α)
  | pop
  | top

/-- What a call returns. -/
inductive StackResult (α : Type) where
  | done
  | cell (result : Option α)

/-- One call; {lean}`none` is a fault. -/
def stackCall (state : NodeHeap α × StackHead) :
    StackOp α → Option ((NodeHeap α × StackHead) × StackResult α)
  | .push cell => some (stackPush state.1 state.2 cell, .done)
  | .pop =>
      (stackPop state.1 state.2).map fun result => ((state.1, result.2), .cell result.1)
  | .top => (stackTop state.1 state.2).map fun cell => (state, .cell cell)

/-- The same call on the chain of the cells. -/
def chainCall (stack : Stack α) : StackOp α → Stack α × StackResult α
  | .push cell => (stack.stackPush cell, .done)
  | .pop => (stack.stackPop.2, .cell stack.stackPop.1)
  | .top => (stack, .cell stack.nodes.head?)

/-- Each call does in memory what it does on the chain, and frees nothing. -/
theorem stackCall_refines (start : NodeHeap α) :
    Refines stackCall chainCall (fun _ _ => True)
      (fun state stack => HoldsStack state.1 state.2 stack ∧ start.Grows state.1) := by
  rintro ⟨heap, head⟩ stack op ⟨hholds, hgrows⟩ -
  cases op with
  | push cell => exact ⟨_, rfl, hholds.push cell, hgrows.malloc _⟩
  | pop =>
      rcases hholds.pop with ⟨head', hrun, hrest⟩
      exact ⟨(heap, head'), by rw [stackCall, hrun]; rfl, hrest, hgrows⟩
  | top => exact ⟨(heap, head), by rw [stackCall, hholds.top]; rfl, hholds, hgrows⟩

/-- From {lit}`{NULL, 0}` on, in whatever memory, every run of calls reads no {lit}`NULL` and
returns what it returns on the chain; the memory then holds the chain, and besides what was there
before all nodes that were ever allocated. -/
theorem stack_refines (heap : NodeHeap α) (ops : List (StackOp α)) :
    ∃ heap' head, runCalls stackCall ops (heap, StackHead.empty) =
        some ((heap', head), (specCalls chainCall ops Stack.empty).2) ∧
      HoldsStack heap' head (specCalls chainCall ops Stack.empty).1 ∧ heap.Grows heap' := by
  rcases (stackCall_refines heap).run (s := (heap, StackHead.empty))
    ⟨HoldsStack.empty heap, .refl heap⟩ (throughout_true ops Stack.empty) with
    ⟨⟨heap', head⟩, hrun, hholds, hgrows⟩
  exact ⟨heap', head, hrun, hholds, hgrows⟩

end LCOMaze
