/-!
# Identifiers

Contexts, timers and frame requests are numbered from one; the number after the largest is one.
-/

namespace HostBridge

def nextNumber (n : UInt32) : UInt32 := if n + 1 = 0 then 1 else n + 1

structure ContextId where
  val : UInt32
  deriving DecidableEq, Repr, Inhabited

structure TimerId where
  val : UInt32
  deriving DecidableEq, Repr, Inhabited

structure FrameId where
  val : UInt32
  deriving DecidableEq, Repr, Inhabited

namespace ContextId

def next (i : ContextId) : ContextId := ⟨nextNumber i.val⟩

def describe (i : ContextId) : String := s!"ContextId({i.val})"

end ContextId

namespace TimerId

def next (i : TimerId) : TimerId := ⟨nextNumber i.val⟩

def describe (i : TimerId) : String := s!"TimerId({i.val})"

def le (a b : TimerId) : Bool := decide (a.val ≤ b.val)

end TimerId

namespace FrameId

def next (i : FrameId) : FrameId := ⟨nextNumber i.val⟩

def describe (i : FrameId) : String := s!"FrameCallbackId({i.val})"

end FrameId

end HostBridge
