import HostBridge.Config.Basic
import HostBridge.Deserializer
import HostBridge.Error
/-!
# Parsing configurations
-/

namespace HostBridge.Config

def policyField : Field Config where
  Value := RejectionPolicy
  key := "rejection_policy"
  shape := .variant ([.everyDrain, .once].map fun p : RejectionPolicy => (p.name, p))
  get := policy
  put p c := { c with policy := p }

def levelField : Field Config where
  Value := UInt32
  key := "max_timer_nesting_level"
  shape := .u32
  get := maxLevel
  put n c := { c with maxLevel := n }

def millis (n : UInt64) : Duration := ⟨n.toNat⟩

def timeoutField : Field Config where
  Value := Duration
  key := "min_nested_timeout_ms"
  shape := .map millis .u64
  get := minTimeout
  put d c := { c with minTimeout := d }

def declared : Schema Config where
  name := "ContextConfig"
  default := {}
  fields := [policyField, levelField, timeoutField]
  distinct := by decide
  get_put := by simp [policyField, levelField, timeoutField]
  get_put_other := by simp [policyField, levelField, timeoutField]
  ext := by
    rintro ⟨p, n, d⟩ ⟨p', n', d'⟩ same
    simpa [policyField, levelField, timeoutField] using same

def parse (de : Deserializer) (text : String) : Except BridgeError Config :=
  (de.fromText declared text).mapError .invalidConfig

end HostBridge.Config
