import HostBridge.Config.Parsing
import HostBridge.Reader.Records
/-!
# Reading configurations
-/

namespace HostBridge.Config

def ofText : String → Except BridgeError Config := parse reader

end HostBridge.Config
