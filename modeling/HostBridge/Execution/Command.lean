import HostBridge.World
/-!
# Commands

The operations that are done at once and run no script. A command for an unknown context does
nothing.
-/

namespace HostBridge

inductive Command (Obj τ : Type) [Facility τ]
  -- The heap.
  | allocate (object : Obj)
  | write (x : Handle) (object : Obj)
  | retain (x : Handle)
  | setThreshold (n : Nat)
  -- The facility and its queue.
  | act (a : Facility.Act τ)
  | post (f : Fire)
  | listen
  | leave
  -- The bridge.
  | createContext (config : Option Config)
  | dispose (c : ContextId)
  | close
  -- A context.
  | setTimer (c : ContextId) (mode : TimerMode) (callback : Value) (delay : Duration)
      (arguments : List Value)
  | clearTimer (c : ContextId) (id : TimerId)
  /-- Accepts a timer of the embedder's own, which it schedules itself. -/
  | installTimer (c : ContextId) (id : TimerId) (t : Timer)
  /-- Removes a timer without telling the facility. -/
  | removeTimer (c : ContextId) (id : TimerId)
  | requestFrame (c : ContextId) (callback : FrameCallback)
  | registerFrame (c : ContextId) (id : FrameId) (r : FrameRequest)
  | cancelFrame (c : ContextId) (id : FrameId)
  | trackUnhandled (c : ContextId) (promise : Handle) (reason : Value)
  | trackHandled (c : ContextId) (promise : Handle) (reason : Value)
  | disposeContext (c : ContextId)
  | reclaim (c : ContextId)

namespace Command

variable {Obj τ : Type} [Facility τ]

def Answer : Command Obj τ → Type
  | allocate _ => Option Handle
  | write .. => Bool
  | retain _ => Option Nat
  | setThreshold _ => Unit
  | act _ => List Fire
  | post _ => Unit
  | listen => Unit
  | leave => Unit
  | createContext _ => ContextId
  | dispose _ => Except BridgeError Unit
  | close => Unit
  | setTimer .. => TimerId
  | clearTimer .. => Bool
  | installTimer .. => Bool
  | removeTimer .. => Bool
  | requestFrame .. => FrameId
  | registerFrame .. => Bool
  | cancelFrame .. => Bool
  | trackUnhandled .. => Bool
  | trackHandled .. => Bool
  | disposeContext _ => Unit
  | reclaim _ => Unit

structure Effect (Obj τ α : Type) where
  answer : α
  world : World Obj τ
  signals : List Signal := []

def inContext {α : Type} (w : World Obj τ) (c : ContextId) (absent : α)
    (f : Context → α × Context) : Effect Obj τ α :=
  match w.context? c with
  | some x => ⟨(f x).1, w.update c fun _ => (f x).2, []⟩
  | none => ⟨absent, w, []⟩

def setTimerIn (w : World Obj τ) (c : ContextId) (mode : TimerMode) (callback : Value)
    (delay : Duration) (arguments : List Value) : Effect Obj τ TimerId :=
  match w.context? c with
  | some x =>
    let t := x.newTimer callback delay arguments mode
    let w := w.update c (·.setTimer t)
    if x.valid then
      let repeats := mode == .repeating
      ⟨t.id, w.schedule ⟨c, t.id⟩ t.timeout repeats, [.scheduled ⟨c, t.id⟩ t.timeout repeats]⟩
    else ⟨t.id, w, []⟩
  | none => ⟨default, w, []⟩

def clearTimerIn (w : World Obj τ) (c : ContextId) (id : TimerId) : Effect Obj τ Bool :=
  match w.context? c with
  | some x =>
    if x.timers.contains id then
      let w := w.update c fun x => { x with timers := x.timers.remove id }
      ⟨true, w.cancel ⟨c, id⟩, [.cancelled ⟨c, id⟩]⟩
    else ⟨false, w, []⟩
  | none => ⟨false, w, []⟩

def perform (w : World Obj τ) : (k : Command Obj τ) → Effect Obj τ k.Answer
  | allocate object =>
    match w.heap.allocate object with
    | some (x, heap) => ⟨some x, { w with heap }, []⟩
    | none => ⟨(none : Option Handle), w, []⟩
  | write x object => ⟨w.heap.alive x, { w with heap := w.heap.write x object }, []⟩
  | retain x =>
    match w.heap.retain x with
    | some (n, heap) => ⟨some n, { w with heap }, []⟩
    | none => ⟨(none : Option Nat), w, []⟩
  | setThreshold n => ⟨(), { w with heap := w.heap.setThreshold n }, []⟩
  | act a =>
    let (w, fires) := w.act a
    ⟨fires, w, fires.map .posted⟩
  | post f => ⟨(), { w with queue := w.queue.post [f] }, [.posted f]⟩
  | listen => ⟨(), { w with queue := w.queue.listen }, []⟩
  | leave => ⟨(), { w with queue := w.queue.leave }, []⟩
  | createContext config => ⟨w.nextContext, w.createContext config, []⟩
  | dispose c =>
    match w.find c with
    | .ok _ =>
      let (w, signals) := w.dispose c
      ⟨.ok (), w, signals⟩
    | .error e => ⟨.error e, w, []⟩
  | close =>
    let (w, signals) := w.close
    ⟨(), w, signals⟩
  | setTimer c mode callback delay arguments => setTimerIn w c mode callback delay arguments
  | clearTimer c id => clearTimerIn w c id
  | installTimer c id t =>
    inContext w c false fun x => (!x.timers.contains id, { x with timers := x.timers.accept id t })
  | removeTimer c id =>
    inContext w c false fun x => (x.timers.contains id, { x with timers := x.timers.remove id })
  | requestFrame c callback =>
    inContext w c (default : FrameId) fun x => (x.nextFrame, x.requestFrame callback)
  | registerFrame c id r =>
    inContext w c false fun x => (!x.frames.contains id, { x with frames := x.frames.accept id r })
  | cancelFrame c id =>
    inContext w c false fun x => (x.frames.contains id, { x with frames := x.frames.remove id })
  | trackUnhandled c promise reason =>
    inContext w c false fun x =>
      (!x.rejections.isUnhandled promise,
        { x with rejections := x.rejections.trackUnhandled promise reason })
  | trackHandled c promise reason =>
    inContext w c false fun x =>
      (x.rejections.handlerIsReported promise,
        { x with rejections := x.rejections.trackHandled promise reason })
  | disposeContext c =>
    let (w, signals) := w.disposeContext c
    ⟨(), w, signals⟩
  | reclaim c => inContext w c () fun x => ((), x.reclaim)

end Command

end HostBridge
