import HostBridge.ClassCache
import HostBridge.Frame
import HostBridge.Rejection
import HostBridge.Timer
/-!
# Calls into the embedder

The bridge runs no script itself. Everything that may run script is a call into the embedder, and
while it lasts the embedder may use the bridge and the heap again, to any depth.
-/

namespace HostBridge

/-- Why a script function or a native frame callback is called: the acceptance that fires. -/
inductive Cause
  | timer (id : TimerId) (serial : Nat)
  | frame (id : FrameId) (serial : Nat)
  deriving DecidableEq, Repr

inductive EventKind
  | unhandledRejection
  | rejectionHandled
  deriving DecidableEq, Repr

def EventKind.name : EventKind → String
  | unhandledRejection => "unhandledrejection"
  | rejectionHandled => "rejectionhandled"

inductive Call (Obj : Type)
  | session
  | function (c : ContextId) (cause : Cause) (function this : Value) (arguments : List Value)
  | native (c : ContextId) (cause : Cause) (number : Nat) (timestamp : Double)
  | job (c : ContextId)
  | report (c : ContextId) (exception : Value)
  | typeError (c : ContextId) (message : String)
  | event (c : ContextId) (kind : EventKind) (rejection : Rejection)
  | createClass (c : ContextId) (t : TypeId) (parentPrototype : Option Handle)
  | install (c : ContextId) (t : TypeId) (objects : ClassObjects)
  | traceRoots (rootSet : Nat)
  | traceComplete (rootSet : Nat)
  | drop (number : Nat) (object : Obj)
  deriving DecidableEq

namespace Call

/-- What a call returns. An error is a thrown value. -/
def Reply {Obj : Type} : Call Obj → Type
  | session => Unit
  | function .. => Except Value Value
  | native .. => Unit
  | job _ => Option (Except Value Unit)
  | report .. => Unit
  | typeError .. => Value
  | event .. => Unit
  | createClass .. => Except Value ClassObjects
  | install .. => Except Value Unit
  | traceRoots _ => List Handle
  | traceComplete _ => Unit
  | drop .. => Unit

end Call

end HostBridge
