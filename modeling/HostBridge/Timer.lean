import HostBridge.Duration
import HostBridge.Ident
import HostBridge.Registry
import HostBridge.Text.Described
/-!
# Timers

A timer calls a script function, once or again and again. Its nesting level tells how many timer
callbacks lie one inside the other when it is set.
-/

namespace HostBridge

inductive TimerMode
  | once
  | repeating
  deriving DecidableEq, Repr, Inhabited

def TimerMode.name : TimerMode → String
  | once => "Once"
  | repeating => "Repeating"

structure Timer where
  id : TimerId
  context : ContextId
  callback : Value
  arguments : List Value := []
  mode : TimerMode
  timeout : Duration := .zero
  level : UInt32 := 0
  deriving DecidableEq, Repr

namespace Timer

def isOneShot (t : Timer) : Bool := t.mode == .once

instance : Traced Timer := ⟨fun t => handles t.callback ++ handles t.arguments⟩

def describe (t : Timer) : String :=
  Described.record "DomTimer"
    [("id", t.id.describe), ("context_id", t.context.describe), ("mode", t.mode.name),
      ("timeout", t.timeout.describe), ("nesting_level", toString t.level)]

end Timer

abbrev Timers := Registry TimerId Timer

namespace Timers

def describe (r : Timers) : String :=
  Described.record "TimerCoordinator"
    [("active", toString r.active.length), ("abandoned", toString r.abandoned.length)]

def sortedIds (r : Timers) : List TimerId := r.keys.mergeSort TimerId.le

/-- The first id from `i` on that is not active. Behind as many ids as there are active timers there
is always a free one. -/
def firstFree (r : Timers) : Nat → TimerId → TimerId
  | 0, i => i
  | tries + 1, i => if r.contains i then firstFree r tries i.next else i

def freeFrom (r : Timers) (i : TimerId) : TimerId := firstFree r r.active.length i

end Timers

end HostBridge
