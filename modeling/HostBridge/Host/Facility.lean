import HostBridge.Duration
import HostBridge.Ident
/-!
# Timer facilities

A facility owns the clock. It is told which timers to watch, and when one expires it posts a fire,
which waits in a queue until the script thread takes it.
-/

namespace HostBridge

structure Target where
  context : ContextId
  timer : TimerId
  deriving DecidableEq, Repr, Inhabited

/-- An expiry. With an error the facility could not time, and says why. -/
structure Fire where
  target : Target
  error : Option String := none
  deriving DecidableEq, Repr, Inhabited

/-- What a facility does for the bridge, and what can happen to it meanwhile. -/
class Facility (τ : Type) where
  Act : Type
  schedule : τ → Target → Duration → Bool → τ
  cancel : τ → Target → τ
  perform : τ → Act → τ × List Fire

end HostBridge
