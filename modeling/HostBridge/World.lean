import HostBridge.Context
import HostBridge.Error
import HostBridge.Heap.Basic
import HostBridge.Host.Queue
/-!
# The world of the bridge

All the state there is beside that of the script engine: the heap, the timer facility, the queue of
fires and the contexts. Contexts are never taken out of `contexts`, since the embedder may keep
them; `live` and `disposed` say which of them the bridge itself still holds. A disposed context is
held, and so traced, until the next collection has finished.
-/

namespace HostBridge

structure World (Obj τ : Type) where
  heap : Heap Obj := {}
  facility : τ
  queue : FireQueue := {}
  /-- Every context ever created, in order of creation. -/
  contexts : List Context := []
  live : List ContextId := []
  disposed : List ContextId := []
  nextContext : ContextId := ⟨1⟩
  defaults : Config := {}

inductive Signal
  | scheduled (t : Target) (delay : Duration) (repeats : Bool)
  | cancelled (t : Target)
  | posted (f : Fire)
  | dispatched (f : Fire)
  deriving DecidableEq, Repr

namespace World

variable {Obj τ : Type}

def context? (w : World Obj τ) (c : ContextId) : Option Context := w.contexts.find? (·.id = c)

def update (w : World Obj τ) (c : ContextId) (f : Context → Context) : World Obj τ :=
  { w with contexts := w.contexts.map fun x => if x.id = c then f x else x }

def isLive (w : World Obj τ) (c : ContextId) : Bool := w.live.contains c

def isValid (w : World Obj τ) (c : ContextId) : Bool := (w.context? c).any Context.valid

def find (w : World Obj τ) (c : ContextId) : Except BridgeError ContextId :=
  if w.isLive c then .ok c
  else .error (if w.disposed.contains c then .contextDisposed c else .contextNotFound c)

def liveInOrder (w : World Obj τ) : List ContextId :=
  w.live.mergeSort fun a b => decide (a.val ≤ b.val)

def rootsOf (w : World Obj τ) (c : ContextId) : List Handle :=
  (w.context? c).elim [] handles

def roots (w : World Obj τ) : List Handle := (w.live ++ w.disposed).flatMap w.rootsOf

/-- The bridge's part when a collection has finished: live contexts reclaim what is abandoned, and
disposed ones are let go. -/
def reclaim (w : World Obj τ) : World Obj τ :=
  { w with
    contexts := w.contexts.map fun x => if w.isLive x.id then x.reclaim else x
    disposed := [] }

def createContext (w : World Obj τ) (config : Option Config) : World Obj τ :=
  let id := w.nextContext
  { w with
    contexts := w.contexts ++ [.create id (config.getD w.defaults)]
    live := w.live ++ [id]
    nextContext := id.next }

variable [Facility τ]

def cancel (w : World Obj τ) (t : Target) : World Obj τ :=
  { w with facility := Facility.cancel w.facility t }

def schedule (w : World Obj τ) (t : Target) (delay : Duration) (repeats : Bool) : World Obj τ :=
  { w with facility := Facility.schedule w.facility t delay repeats }

def timed (w : World Obj τ) (c : ContextId) : List Target :=
  match w.context? c with
  | some x => if x.valid then (Timers.sortedIds x.timers).map (⟨c, ·⟩) else []
  | none => []

def disposeContext (w : World Obj τ) (c : ContextId) : World Obj τ × List Signal :=
  let timed := w.timed c
  (timed.foldl cancel (w.update c Context.dispose), timed.map .cancelled)

/-- Disposes a live context; it stays held until the next collection has finished. -/
def dispose (w : World Obj τ) (c : ContextId) : World Obj τ × List Signal :=
  let (w, signals) := w.disposeContext c
  ({ w with live := w.live.erase c, disposed := w.disposed ++ [c] }, signals)

def disposeEach (w : World Obj τ) : List ContextId → World Obj τ × List Signal
  | [] => (w, [])
  | c :: rest =>
    let (w, first) := w.disposeContext c
    let (w, later) := disposeEach w rest
    (w, first ++ later)

def close (w : World Obj τ) : World Obj τ × List Signal :=
  let (w, signals) := w.disposeEach w.liveInOrder
  ({ w with live := [], disposed := [] }, signals)

def act (w : World Obj τ) (a : Facility.Act τ) : World Obj τ × List Fire :=
  let (facility, fires) := Facility.perform w.facility a
  ({ w with facility, queue := w.queue.post fires }, fires)

end World

end HostBridge
