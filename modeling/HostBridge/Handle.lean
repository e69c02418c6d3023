/-!
# Handles

A handle names an object of the script heap by its slot and by the generation of the slot it was
issued for, so a handle to a reclaimed object is told apart from one to a later object of the slot.
-/

namespace HostBridge

structure Handle where
  index : UInt32
  generation : UInt32
  deriving DecidableEq, Repr, Inhabited

namespace Handle

def le (a b : Handle) : Bool :=
  decide (a.index < b.index) || (a.index == b.index && decide (a.generation ≤ b.generation))

def describe (h : Handle) : String := s!"GcRef({h.index}@{h.generation})"

end Handle

def sortedHandles (handles : List Handle) : List Handle := handles.mergeSort Handle.le

def distinctHandles (handles : List Handle) : List Handle := (sortedHandles handles).eraseDups

end HostBridge
