import HostBridge.Proofs.Execution.Plan
import HostBridge.Proofs.Heap.Ledger
/-!
# Handles and the objects they name

Along a run from an empty heap the ledger is kept. So handles are never issued twice, stay dead once
dead, and name the object they were issued for while they live.
-/

namespace HostBridge

variable {Obj : Type}

namespace Execution

variable {τ : Type} [Facility τ] [Traced Obj] {E : Embedder Obj τ}

/-- How often the slot `i` is reclaimed in the first `n` steps. -/
def reclaims (x : Execution E) (i n : Nat) : Nat :=
  (List.range n).countP fun m => (x.run m).world.heap.empties (x.run (m + 1)).world.heap i

end Execution

end HostBridge
