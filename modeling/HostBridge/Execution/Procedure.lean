import HostBridge.Execution.Task
/-!
# Procedures

The operations that may run script, with what each answers in the end.
-/

namespace HostBridge

inductive Procedure
  | release (n : Nat)
  | collect (roots : List RootSet)
  | exception (c : ContextId) (thrown : Value)
  | drain (c : ContextId)
  | process (c : ContextId)
  | fire (c : ContextId) (id : TimerId) (error : Option String)
  | dispatch (f : Fire)
  | pump
  | frames (c : ContextId) (timestamp : Double)
  | framesAll (timestamp : Double)
  | classObjects (c : ContextId) (t : TypeId)
  deriving DecidableEq, Repr

namespace Procedure

def Answer : Procedure → Type
  | release _ => Unit
  | collect _ => Nat
  | exception .. => Unit
  | drain _ => Unit
  | process _ => Nat
  | fire .. => Bool
  | dispatch _ => Bool
  | pump => Nat
  | frames .. => Nat
  | framesAll _ => Nat
  | classObjects .. => Except Value ClassObjects

variable {Obj τ : Type}

def collection (roots : List RootSet) : List (Task Obj) :=
  roots.map .traceRoots ++ [.markAndSweep, .letGo, .conclude] ++ roots.map .traceComplete

/-- A collection requested while one is in progress does nothing. -/
def start (w : World Obj τ) : Procedure → Advance Obj τ
  | release n =>
    let heap := w.heap.release n
    let (w, dropped) := World.dropObject { w with heap } n (heap.unreferenced n)
    ⟨w, {}, dropped, []⟩
  | collect roots =>
    if w.heap.collecting then ⟨w, {}, [], []⟩
    else ⟨{ w with heap := w.heap.beginTracing }, {}, collection roots, []⟩
  | exception c thrown => ⟨w, {}, [.call (.report c thrown)], []⟩
  | drain c => ⟨w, {}, [.drain c], []⟩
  | process c => ⟨w.takeBatch c, { count := (w.batch c).size }, (w.batch c).tasks c, []⟩
  | fire c id error => ⟨w, {}, [.fire c id error], []⟩
  | dispatch f => ⟨w, {}, [.dispatch f], []⟩
  | pump => ⟨{ w with queue := w.queue.drained }, {}, w.queue.waiting.map .dispatch, []⟩
  | frames c timestamp => ⟨w, {}, [.frames c timestamp], []⟩
  | framesAll timestamp => ⟨w, {}, w.liveInOrder.map (.frames · timestamp), []⟩
  | classObjects c t => ⟨w, {}, [.classObjects c t], []⟩

def answer (p : Progress) : (k : Procedure) → k.Answer
  | release _ => ()
  | collect _ => p.count
  | exception .. => ()
  | drain _ => ()
  | process _ => p.count
  | fire .. => decide (0 < p.count)
  | dispatch _ => decide (0 < p.count)
  | pump => p.count
  | frames .. => p.count
  | framesAll _ => p.count
  | classObjects .. => p.classObjects

end Procedure

end HostBridge
