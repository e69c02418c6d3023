import HostBridge.Config.Reader
import HostBridge.HeapScript.Host
import HostBridge.Mutation.Tree
import HostBridge.Proofs.Abandoned
import HostBridge.Proofs.Classes.Once
import HostBridge.Proofs.Classes.Reentrance
import HostBridge.Proofs.Contexts.Finding
import HostBridge.Proofs.Frames.Issuing
import HostBridge.Proofs.Frames.Pass
import HostBridge.Proofs.Heap.DropHooks
import HostBridge.Proofs.Heap.Growth
import HostBridge.Proofs.Heap.Identity
import HostBridge.Proofs.Heap.Ownership
import HostBridge.Proofs.Heap.Survivors
import HostBridge.Proofs.Heap.Worklist
import HostBridge.Proofs.InUse
import HostBridge.Proofs.Mutation.Delivery
import HostBridge.Proofs.Rejections.Drains
import HostBridge.Proofs.Rejections.Jobs
import HostBridge.Proofs.Rejections.Messages
import HostBridge.Proofs.Timers.Accounting
import HostBridge.Proofs.Timers.Clamping
import HostBridge.Proofs.Timers.Numbering
import HostBridge.Proofs.Timers.Pumping
import HostBridge.Proofs.Timers.Punctuality
import HostBridge.Proofs.Timers.Schedule
import HostBridge.Script.Session
import HostBridge.Proofs.Places
import HostBridge.Proofs.Timers.Waiting
import HostBridge.Proofs.Mutation.Registered
import HostBridge.Proofs.Config.Parsing
