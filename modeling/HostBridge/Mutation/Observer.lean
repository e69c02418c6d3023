import HostBridge.Mutation.Options
import HostBridge.Text.Described
import HostBridge.Traced
/-!
# Mutation records and observers

A record tells one mutation. Records have identity, a serial number: observers that share a record
share its serial. An observer queues the records it is given until they are taken.
-/

namespace HostBridge.Mutation

structure Record where
  serial : Nat
  kind : Kind
  target : Handle
  attributeName : Option String := none
  oldValue : Option String := none
  added : List Handle := []
  removed : List Handle := []
  previous : Option Handle := none
  next : Option Handle := none
  deriving DecidableEq, Repr

namespace Record

def childList (serial : Nat) (target : Handle) (added removed : List Handle)
    (previous next : Option Handle) : Record :=
  { serial, kind := .childList, target, added, removed, previous, next }

def attributes (serial : Nat) (target : Handle) (attributeName : String)
    (oldValue : Option String) : Record :=
  { serial, kind := .attributes, target, attributeName := some attributeName, oldValue }

def characterData (serial : Nat) (target : Handle) (oldValue : Option String) : Record :=
  { serial, kind := .characterData, target, oldValue }

/-- The record without its old value: itself if it has none, else a new record of that serial. -/
def withoutOldValue (r : Record) (serial : Nat) : Record :=
  if r.oldValue.isNone then r else { r with serial, oldValue := none }

instance : Traced Record :=
  ⟨fun r => r.target :: r.added ++ r.removed ++ r.previous.toList ++ r.next.toList⟩

end Record

structure Observer where
  callback : Value
  pending : List Record := []
  deriving DecidableEq, Repr

namespace Observer

def enqueue (o : Observer) (r : Record) : Observer := { o with pending := o.pending ++ [r] }

def taken (o : Observer) : Observer := { o with pending := [] }

def hasPending (o : Observer) : Bool := !o.pending.isEmpty

instance : Traced Observer := ⟨fun o => handles o.callback ++ handles o.pending⟩

def describe (o : Observer) : String :=
  Described.record "MutationObserver"
    [("callback", o.callback.describe), ("pending", toString o.pending.length)]

end Observer

structure Observers where
  all : List Observer := []
  records : Nat := 0
  deriving DecidableEq, Repr

namespace Observers

def get? (o : Observers) (i : Nat) : Option Observer := o.all[i]?

def update (o : Observers) (i : Nat) (f : Observer → Observer) : Observers :=
  { o with all := o.all.modify i f }

def enqueue (o : Observers) (i : Nat) (r : Record) : Observers := o.update i (·.enqueue r)

def handlesOf (o : Observers) (i : Nat) : List Handle := (o.get? i).elim [] handles

end Observers

end HostBridge.Mutation
