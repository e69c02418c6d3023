import HostBridge.Traced
/-!
# Promise rejections

Rejections without a handler are tracked as they happen and reported only when a batch is taken, so
a promise rejected and handled in between is never heard of. An *episode* of a promise runs from the
rejection that starts it to the handler, the report or the clearing that ends it; `episode` numbers
them. A handler that comes after a report is reported too.
-/

namespace HostBridge

inductive RejectionPolicy
  | everyDrain
  | once
  deriving DecidableEq, Repr, Inhabited

def RejectionPolicy.name : RejectionPolicy → String
  | everyDrain => "every_drain"
  | once => "once"

structure Rejection where
  promise : Handle
  reason : Value
  reported : Bool := false
  episode : Nat
  deriving DecidableEq, Repr

instance : Traced Rejection := ⟨fun r => r.promise :: handles r.reason⟩

structure Rejections where
  policy : RejectionPolicy := .everyDrain
  /-- Open episodes, at most one for each promise, in the order they were opened. -/
  unhandled : List Rejection := []
  handled : List Rejection := []
  episodes : Nat := 0
  deriving DecidableEq, Repr

namespace Rejections

def find? (r : Rejections) (promise : Handle) : Option Rejection :=
  r.unhandled.find? (·.promise = promise)

def isUnhandled (r : Rejections) (promise : Handle) : Bool :=
  r.unhandled.any (·.promise = promise)

/-- Opens an episode, unless the promise has an open one. -/
def trackUnhandled (r : Rejections) (promise : Handle) (reason : Value) : Rejections :=
  if r.isUnhandled promise then r
  else
    { r with
      unhandled := r.unhandled ++ [{ promise, reason, episode := r.episodes }]
      episodes := r.episodes + 1 }

/-- Ends the promise's open episode, and queues a report of it if the episode was reported. -/
def trackHandled (r : Rejections) (promise : Handle) (reason : Value) : Rejections :=
  match r.find? promise with
  | none => r
  | some ended =>
    { r with
      unhandled := r.unhandled.eraseP (·.promise = promise)
      handled := if ended.reported then r.handled ++ [{ ended with reason }] else r.handled }

def handlerIsReported (r : Rejections) (promise : Handle) : Bool :=
  (r.find? promise).any Rejection.reported

structure Batch where
  unhandled : List Rejection
  handled : List Rejection
  deriving DecidableEq, Repr

def Batch.size (b : Batch) : Nat := b.unhandled.length + b.handled.length

def pending (r : Rejections) : Batch :=
  ⟨r.unhandled.map ({ · with reported := true }), r.handled⟩

def takePending (r : Rejections) : Rejections :=
  { r with
    unhandled := match r.policy with
      | .everyDrain => r.pending.unhandled
      | .once => []
    handled := [] }

def clear (r : Rejections) : Rejections := { r with unhandled := [], handled := [] }

def isEmpty (r : Rejections) : Bool := r.unhandled.isEmpty && r.handled.isEmpty

instance : Traced Rejections := ⟨fun r => (r.unhandled ++ r.handled).flatMap handles⟩

inductive Op
  | trackUnhandled (promise : Handle) (reason : Value)
  | trackHandled (promise : Handle) (reason : Value)
  | takePending
  | clear

def apply (r : Rejections) : Op → Rejections
  | .trackUnhandled promise reason => r.trackUnhandled promise reason
  | .trackHandled promise reason => r.trackHandled promise reason
  | .takePending => r.takePending
  | .clear => r.clear

end Rejections

end HostBridge
