import HostBridge.Context
import HostBridge.Error
import HostBridge.Frame
import HostBridge.Heap.Basic
import HostBridge.Host.Facility
import HostBridge.Timer
/-!
# Scripts

A small language for driving the bridge: a script is a list of actions, and functions, promise jobs,
event handlers, native callbacks and class installers have scripts for bodies.
-/

namespace HostBridge.Script

inductive Operand
  | literal (v : Value)
  | named (name : String)
  | argument (i : Nat)
  deriving DecidableEq, Repr, Inhabited

inductive Roots
  | bridge
  | contexts (ids : List ContextId)
  deriving DecidableEq, Repr

inductive ClassPart
  | constructor
  | prototype
  | both
  deriving DecidableEq, Repr

inductive ContextAction
  | setTimer (mode : TimerMode) (callback : Operand) (delay : Duration) (arguments : List Operand)
  | clearTimer (id : TimerId)
  | timer (id : TimerId)
  | installTimer (id inner : TimerId) (callback : Operand) (arguments : List Operand)
      (mode : TimerMode) (timeout : Duration) (level : UInt32)
  | removeTimer (id : TimerId)
  | fire (id : TimerId) (error : Option String)
  | requestFrame (callback : Operand)
  | registerFrame (id inner : FrameId) (callback : Operand)
  | cancelFrame (id : FrameId)
  | frame (id : FrameId)
  | frameIds
  | frames (timestamp : Double)
  | reject (promise reason : Operand)
  | handle (promise reason : Operand)
  | isUnhandled (promise : Operand)
  | process
  | drain
  | exception (thrown : Operand)
  | lookUp (part : ClassPart) (key : String)
  | cached (key : String)
  | types
  | dispose
  | trace
  | traceComplete
  | state
  deriving DecidableEq, Repr

inductive Action
  | throw (value : Operand)
  | object (name : String) (refs : List Operand)
  | setRefs (object : Operand) (refs : List Operand)
  | label (object : Operand)
  | function (name : String) (body : List Action) (limit : Nat) (captures : List Operand)
  | job (body : List Action)
  | onEvent (type : String) (body : List Action) (limit : Nat)
  | alive (object : Operand)
  | liveCount
  | stats
  | expire (f : Fire)
  | expireAll
  | scheduled
  | pending
  | push (f : Fire)
  | queued
  | describe (key : String)
  | newContext (config : Option (Except BridgeError Config))
  | lookup (id : ContextId)
  | contexts
  | dispose (id : ContextId)
  | dispatch (f : Fire)
  | pump
  | framesAll (timestamp : Double)
  | traceAll
  | dropRuntime
  | collect (roots : Roots)
  | sleep (d : Duration)
  | advance (d : Duration)
  | nextFires
  | on (c : Option ContextId) (a : ContextAction)
  | requestNative (c : Option ContextId) (body : List Action)
  | unknown (name : String)
  deriving Repr, Inhabited

def ContextAction.name : ContextAction → String
  | setTimer .once .. => "set_timeout"
  | setTimer .repeating .. => "set_interval"
  | clearTimer _ => "clear_timer"
  | timer _ => "timer"
  | installTimer .. => "install_timer"
  | removeTimer _ => "remove_timer"
  | fire .. => "fire"
  | requestFrame _ => "raf"
  | registerFrame .. => "register_frame"
  | cancelFrame _ => "cancel_raf"
  | frame _ => "frame"
  | frameIds => "frame_ids"
  | frames _ => "frames"
  | reject .. => "reject"
  | handle .. => "handle"
  | isUnhandled _ => "is_unhandled"
  | process => "process"
  | drain => "drain"
  | exception _ => "exception"
  | lookUp .constructor _ => "ctor"
  | lookUp .prototype _ => "proto"
  | lookUp .both _ => "class"
  | cached _ => "cached"
  | types => "types"
  | dispose => "dispose_context"
  | trace => "trace_ctx"
  | traceComplete => "trace_complete"
  | state => "state"

def Action.name : Action → String
  | throw _ => "throw"
  | object .. => "object"
  | setRefs .. => "set_refs"
  | label _ => "label"
  | function .. => "function"
  | job _ => "job"
  | onEvent .. => "on_event"
  | alive _ => "alive"
  | liveCount => "live_count"
  | stats => "stats"
  | expire ⟨_, none⟩ => "expire"
  | expire ⟨_, some _⟩ => "fail"
  | expireAll => "expire_all"
  | scheduled => "scheduled"
  | pending => "pending"
  | push _ => "push"
  | queued => "queued"
  | describe _ => "describe"
  | newContext _ => "new_context"
  | lookup _ => "lookup"
  | contexts => "contexts"
  | dispose _ => "dispose"
  | dispatch _ => "dispatch"
  | pump => "pump"
  | framesAll _ => "frames_all"
  | traceAll => "trace_all"
  | dropRuntime => "drop_runtime"
  | collect _ => "collect"
  | sleep _ => "sleep"
  | advance _ => "advance"
  | nextFires => "next_fires"
  | on _ a => a.name
  | requestNative .. => "native_raf"
  | unknown name => name

inductive Outcome
  | nothing
  | flag (b : Bool)
  | count (n : Nat)
  | text (s : String)
  | texts (ss : List String)
  | handle (x : Handle)
  | handles (xs : List Handle)
  | classObjects (o : ClassObjects)
  | stats (s : Stats)
  | targets (ts : List Target)
  | created (id : ContextId) (config : Config)
  | found (id : ContextId) (valid : Bool)
  | contexts (ids : List ContextId)
  | timer (t : Timer)
  | frame (r : FrameRequest)
  | frameIds (ids : List FrameId)
  | state (c : Context)
  | thrown (v : Value)
  | error (e : BridgeError)
  | noContext
  | noRuntime
  | badStep
  deriving Repr

end HostBridge.Script
