import HostBridge.Ident
/-!
# Errors

Failures of configuration and of context management. What script throws is no error of the bridge.
-/

namespace HostBridge

inductive BridgeError
  | invalidConfig (fault : String)
  | contextNotFound (id : ContextId)
  | contextDisposed (id : ContextId)
  deriving DecidableEq, Repr

namespace BridgeError

def kind : BridgeError → String
  | invalidConfig _ => "InvalidConfig"
  | contextNotFound _ => "ContextNotFound"
  | contextDisposed _ => "ContextDisposed"

def message : BridgeError → String
  | invalidConfig fault => "Invalid context configuration: " ++ fault
  | contextNotFound id => s!"Context {id.val} not found"
  | contextDisposed id => s!"Context {id.val} has been disposed"

end BridgeError

end HostBridge
