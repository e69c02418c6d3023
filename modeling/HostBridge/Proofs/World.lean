import HostBridge.Execution.Procedure
/-!
# What operations on the world leave alone

The heap is the same after every operation that concerns contexts only.
-/

namespace HostBridge.World

variable {Obj τ : Type}

@[simp] theorem update_heap (w : World Obj τ) (c : ContextId) (f : Context → Context) :
    (w.update c f).heap = w.heap := rfl

theorem heap_of_lookUpClass {w w' : World Obj τ} {alive : Handle → Bool} {c : ContextId}
    {t : TypeId} {found : Option ClassObjects} (lookUp : w.lookUpClass alive c t = (found, w')) :
    w'.heap = w.heap := by
  have same : w' = (w.lookUpClass alive c t).2 := (congrArg Prod.snd lookUp).symm
  rw [same, lookUpClass, update_heap]

variable [Facility τ]

@[simp] theorem foldl_cancel_heap (w : World Obj τ) (ts : List Target) :
    (ts.foldl cancel w).heap = w.heap := by
  induction ts generalizing w with
  | nil => rfl
  | cons t ts ih => exact ih (w.cancel t)

@[simp] theorem disposeContext_heap (w : World Obj τ) (c : ContextId) :
    (w.disposeContext c).1.heap = w.heap := foldl_cancel_heap _ _

@[simp] theorem dispose_heap (w : World Obj τ) (c : ContextId) :
    (w.dispose c).1.heap = w.heap := disposeContext_heap w c

@[simp] theorem disposeEach_heap (w : World Obj τ) (cs : List ContextId) :
    (w.disposeEach cs).1.heap = w.heap := by
  induction cs generalizing w with
  | nil => rfl
  | cons c cs ih => exact (ih _).trans (disposeContext_heap w c)

@[simp] theorem close_heap (w : World Obj τ) : w.close.1.heap = w.heap := disposeEach_heap w _

end HostBridge.World
