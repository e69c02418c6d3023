import HostBridge.ClassCache
import HostBridge.Config.Basic
import HostBridge.Frame
import HostBridge.Timer
/-!
# Contexts

A context is one script global with the native resources it owns: timers, frame requests, tracked
rejections and class objects. What it holds is traced until it is disposed and the next collection
has finished.
-/

namespace HostBridge

structure Context where
  id : ContextId
  config : Config
  valid : Bool := true
  classes : ClassCache := {}
  timers : Timers := {}
  frames : Frames := {}
  rejections : Rejections
  nextTimer : TimerId := ⟨1⟩
  nextFrame : FrameId := ⟨1⟩
  /-- The nesting level of the timer whose callback runs, zero outside timers. -/
  level : UInt32 := 0
  draining : Bool := false
  deriving Repr

namespace Context

def create (id : ContextId) (config : Config) : Context :=
  { id, config, rejections := { policy := config.policy } }

instance : Traced Context :=
  ⟨fun c => handles c.classes ++ handles c.timers ++ handles c.frames ++ handles c.rejections⟩

def reclaim (c : Context) : Context :=
  { c with timers := c.timers.reclaim, frames := c.frames.reclaim }

/-- The nesting level of a timer that is set now; the largest level is its own successor. -/
def nextLevel (c : Context) : UInt32 := if c.level + 1 = 0 then c.level else c.level + 1

def newTimer (c : Context) (callback : Value) (delay : Duration) (arguments : List Value)
    (mode : TimerMode) : Timer :=
  { id := c.timers.freeFrom c.nextTimer, context := c.id, callback, arguments, mode
    timeout := c.config.clamp delay c.nextLevel, level := c.nextLevel }

/-- A disposed context uses up the id and installs nothing. -/
def setTimer (c : Context) (t : Timer) : Context :=
  { c with
    nextTimer := t.id.next
    timers := if c.valid then c.timers.accept t.id t else c.timers }

/-- A disposed context uses up the id and registers nothing. -/
def requestFrame (c : Context) (callback : FrameCallback) : Context :=
  { c with
    nextFrame := c.nextFrame.next
    frames :=
      if c.valid then c.frames.accept c.nextFrame ⟨c.nextFrame, c.id, callback⟩ else c.frames }

/-- Abandons all that the context owns, and forgets what need not stay traced. A second time nothing
is left to do. -/
def dispose (c : Context) : Context :=
  if c.valid then
    { c with
      valid := false
      timers := c.timers.abandonAll
      frames := c.frames.abandonAll
      rejections := c.rejections.clear
      classes := .clear }
  else c

def describe (c : Context) : String :=
  Described.excerpt "ExecutingContext"
    [("id", c.id.describe), ("valid", if c.valid then "true" else "false"),
      ("timers", Timers.describe c.timers), ("frame_callbacks", Frames.describe c.frames)]

end Context

end HostBridge
