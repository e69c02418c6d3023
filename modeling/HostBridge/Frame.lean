import HostBridge.Ident
import HostBridge.Registry
import HostBridge.Text.Described
/-!
# Frame requests

A frame request runs once, in the next frame: a script function, or a native callback that is known
by its number.
-/

namespace HostBridge

inductive FrameCallback
  | script (function : Value)
  | native (number : Nat)
  deriving DecidableEq, Repr

structure FrameRequest where
  id : FrameId
  context : ContextId
  callback : FrameCallback
  deriving DecidableEq, Repr

namespace FrameCallback

def kind : FrameCallback → String
  | script _ => "script"
  | native _ => "native"

instance : Traced FrameCallback :=
  ⟨fun
    | script function => handles function
    | native _ => []⟩

end FrameCallback

namespace FrameRequest

instance : Traced FrameRequest := ⟨fun r => handles r.callback⟩

def describe (r : FrameRequest) : String :=
  Described.record "FrameCallback"
    [("id", r.id.describe), ("context_id", r.context.describe), ("kind", quoted r.callback.kind)]

end FrameRequest

abbrev Frames := Registry FrameId FrameRequest

def Frames.describe (r : Frames) : String :=
  Described.record "FrameRequestCallbackCollection"
    [("active", toString r.active.length), ("abandoned", toString r.abandoned.length)]

end HostBridge
