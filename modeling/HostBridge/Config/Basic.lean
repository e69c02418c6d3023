import HostBridge.Duration
import HostBridge.Rejection
/-!
# Context configuration
-/

namespace HostBridge

structure Config where
  policy : RejectionPolicy := .everyDrain
  /-- Timers nested deeper than this wait at least `minTimeout`. -/
  maxLevel : UInt32 := 5
  minTimeout : Duration := ⟨4⟩
  deriving DecidableEq, Repr, Inhabited

def Config.clamp (c : Config) (delay : Duration) (level : UInt32) : Duration :=
  if c.maxLevel < level then delay.longer c.minTimeout else delay

end HostBridge
