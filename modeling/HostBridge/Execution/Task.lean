import HostBridge.Execution.Call
import HostBridge.World
/-!
# Tasks

A procedure is an operation that may run script. It goes on in tasks, each done at once or else a
call into the embedder, so that whatever script does between two tasks finds the world as the bridge
left it.
-/

namespace HostBridge

inductive RootSet
  | bridge
  | context (c : ContextId)
  | handles (xs : List Handle)
  | external (rootSet : Nat)
  deriving DecidableEq, Repr

inductive Task (Obj : Type)
  | call (k : Call Obj)
  | fire (c : ContextId) (id : TimerId) (error : Option String)
  | dispatch (f : Fire)
  | setLevel (c : ContextId) (level : UInt32)
  | retire (c : ContextId) (id : TimerId)
  | drain (c : ContextId)
  | endDrain (c : ContextId)
  | flush (c : ContextId)
  | frames (c : ContextId) (timestamp : Double)
  | frame (c : ContextId) (id : FrameId) (timestamp : Double)
  | classObjects (c : ContextId) (t : TypeId)
  | defineClass (c : ContextId) (t : TypeId)
  | traceRoots (r : RootSet)
  | markAndSweep
  | letGo
  | conclude
  | traceComplete (r : RootSet)

structure Progress where
  count : Nat := 0
  classObjects : Except Value ClassObjects := .error .undefined

/-- What the bridge asks the embedder without running script. -/
structure Surroundings where
  types : TypeId → TypeDescriptor
  alive : Handle → Bool

structure Advance (Obj τ : Type) where
  world : World Obj τ
  progress : Progress
  first : List (Task Obj) := []
  signals : List Signal := []

namespace Progress

def tick (p : Progress) : Progress := { p with count := p.count + 1 }

end Progress

variable {Obj τ : Type}

/-- The calls that report a batch of rejections, those without a handler first. -/
def Rejections.Batch.tasks (c : ContextId) (b : Rejections.Batch) : List (Task Obj) :=
  b.unhandled.map (fun r => .call (.event c .unhandledRejection r)) ++
    b.handled.map fun r => .call (.event c .rejectionHandled r)

/-- The batch that is reported now; a disposed context reports nothing. -/
def World.batch (w : World Obj τ) (c : ContextId) : Rejections.Batch :=
  match w.context? c with
  | some x => if x.valid then x.rejections.pending else ⟨[], []⟩
  | none => ⟨[], []⟩

def World.takeBatch (w : World Obj τ) (c : ContextId) : World Obj τ :=
  w.update c fun x => if x.valid then { x with rejections := x.rejections.takePending } else x

/-- The class that a look-up finds, and the world after it has forgotten a dead one. -/
def World.lookUpClass (w : World Obj τ) (alive : Handle → Bool) (c : ContextId) (t : TypeId) :
    Option ClassObjects × World Obj τ :=
  ((w.context? c).bind (·.classes.live? alive t),
    w.update c fun x => { x with classes := x.classes.evict alive t })

/-- Drops an object if nothing refers to it any more, which calls its drop hook. -/
def World.dropObject (w : World Obj τ) (n : Nat) (unreferenced : Bool) :
    World Obj τ × List (Task Obj) :=
  match unreferenced, w.heap.object? n with
  | true, some object => ({ w with heap := w.heap.drop n }, [.call (.drop n object)])
  | _, _ => (w, [])

namespace Task

def frameCall (c : ContextId) (e : Entry FrameId FrameRequest) (timestamp : Double) : Call Obj :=
  match e.item.callback with
  | .script function =>
    .function c (.frame e.key e.serial) function .undefined [.number timestamp]
  | .native number => .native c (.frame e.key e.serial) number timestamp

/-- The tasks of a timer's fire behind the setting of its level; `before` is the level in effect. -/
def fireTasks (c : ContextId) (e : Entry TimerId Timer) (before : UInt32) (error : Option String) :
    List (Task Obj) :=
  let retire := if e.item.isOneShot then [retire c e.key] else []
  match error with
  | some message => call (.typeError c message) :: retire
  | none =>
    call (.function c (.timer e.key e.serial) e.item.callback .undefined e.item.arguments) ::
      setLevel c before :: drain c :: retire

def fireLevel (e : Entry TimerId Timer) (before : UInt32) : Option String → UInt32
  | some _ => before
  | none => e.item.level

def run [Traced Obj] (env : Surroundings) (w : World Obj τ) (p : Progress) :
    Task Obj → Advance Obj τ
  | call k => ⟨w, p, [call k], []⟩
  | fire c id error =>
    match w.context? c with
    | some x =>
      match x.valid, x.timers.entry? id with
      | true, some e =>
        ⟨w.update c fun x => { x with level := fireLevel e x.level error }, p.tick,
          fireTasks c e x.level error, []⟩
      | _, _ => ⟨w, p, [], []⟩
    | none => ⟨w, p, [], []⟩
  | dispatch f =>
    let first := if w.isLive f.target.context then [fire f.target.context f.target.timer f.error]
      else []
    ⟨w, p, first, [.dispatched f]⟩
  | setLevel c level => ⟨w.update c fun x => { x with level }, p, [], []⟩
  | retire c id => ⟨w.update c fun x => { x with timers := x.timers.remove id }, p, [], []⟩
  | drain c =>
    match w.context? c with
    | some x =>
      if x.valid && !x.draining then
        ⟨w.update c fun x => { x with draining := true }, p, [call (.job c), endDrain c], []⟩
      else ⟨w, p, [], []⟩
    | none => ⟨w, p, [], []⟩
  | endDrain c => ⟨w.update c fun x => { x with draining := false }, p, [flush c], []⟩
  | flush c => ⟨w.takeBatch c, p, (w.batch c).tasks c, []⟩
  | frames c timestamp =>
    match w.context? c with
    | some x =>
      ⟨w, p, if x.valid then x.frames.keys.map (frame c · timestamp) else [], []⟩
    | none => ⟨w, p, [], []⟩
  | frame c id timestamp =>
    match (w.context? c).bind (·.frames.entry? id) with
    | some e =>
      ⟨w.update c fun x => { x with frames := x.frames.remove id }, p.tick,
        [call (frameCall c e timestamp), drain c], []⟩
    | none => ⟨w, p, [], []⟩
  | classObjects c t =>
    match w.lookUpClass env.alive c t with
    | (some objects, w) => ⟨w, { p with classObjects := .ok objects }, [], []⟩
    | (none, w) =>
      match (env.types t).parent with
      | some parent => ⟨w, p, [classObjects c parent, defineClass c t], []⟩
      | none => ⟨w, p, [defineClass c t], []⟩
  | defineClass c t =>
    let parent : Except Value (Option Handle) := match (env.types t).parent with
      | none => .ok none
      | some _ => p.classObjects.map fun o => some o.prototype
    match parent with
    | .error thrown => ⟨w, { p with classObjects := .error thrown }, [], []⟩
    | .ok prototype =>
      match w.lookUpClass env.alive c t with
      | (some objects, w) => ⟨w, { p with classObjects := .ok objects }, [], []⟩
      | (none, w) => ⟨w, p, [call (.createClass c t prototype)], []⟩
  | traceRoots r =>
    match r with
    | .bridge => ⟨{ w with heap := w.heap.visitRoots w.roots }, p, [], []⟩
    | .context c => ⟨{ w with heap := w.heap.visitRoots (w.rootsOf c) }, p, [], []⟩
    | .handles xs => ⟨{ w with heap := w.heap.visitRoots xs }, p, [], []⟩
    | .external rootSet => ⟨w, p, [call (.traceRoots rootSet)], []⟩
  | markAndSweep =>
    let heap := w.heap.markAndSweep
    let reclaimed := match heap.phase with
      | .dropping _ reclaimed => reclaimed
      | _ => 0
    ⟨{ w with heap }, { p with count := reclaimed }, [], []⟩
  | letGo =>
    match w.heap.letGo with
    | some (n, heap) =>
      let (w, dropped) := World.dropObject { w with heap } n (!heap.isHeld n)
      ⟨w, p, dropped ++ [letGo], []⟩
    | none => ⟨w, p, [], []⟩
  | conclude => ⟨{ w with heap := w.heap.conclude }, p, [], []⟩
  | traceComplete r =>
    match r with
    | .bridge => ⟨w.reclaim, p, [], []⟩
    | .context c => ⟨w.update c Context.reclaim, p, [], []⟩
    | .handles _ => ⟨w, p, [], []⟩
    | .external rootSet => ⟨w, p, [call (.traceComplete rootSet)], []⟩

end Task

/-- What the bridge does with the reply of a call. -/
def Call.resume (types : TypeId → TypeDescriptor) (w : World Obj τ) (p : Progress) :
    (k : Call Obj) → k.Reply → Advance Obj τ
  | session, _ => ⟨w, p, [], []⟩
  | function c .., reply =>
    match reply with
    | .ok _ => ⟨w, p, [], []⟩
    | .error thrown => ⟨w, p, [.call (.report c thrown)], []⟩
  | native .., _ => ⟨w, p, [], []⟩
  | job c, reply =>
    match reply with
    | none => ⟨w, p, [], []⟩
    | some (.ok _) => ⟨w, p, [.call (.job c)], []⟩
    | some (.error thrown) => ⟨w, p, [.call (.report c thrown), .call (.job c)], []⟩
  | report .., _ => ⟨w, p, [], []⟩
  | typeError c _, exception => ⟨w, p, [.call (.report c exception)], []⟩
  | event .., _ => ⟨w, p, [], []⟩
  | createClass c t _, reply =>
    match reply with
    | .error thrown => ⟨w, { p with classObjects := .error thrown }, [], []⟩
    | .ok objects =>
      ⟨w.update c fun x => { x with classes := x.classes.insert t objects },
        { p with classObjects := .ok objects },
        if (types t).installs then [.call (.install c t objects)] else [], []⟩
  | install c t objects, reply =>
    match reply with
    | .ok _ => ⟨w, { p with classObjects := .ok objects }, [], []⟩
    | .error thrown =>
      ⟨w.update c fun x => { x with classes := x.classes.erase t },
        { p with classObjects := .error thrown }, [], []⟩
  | traceRoots _, xs => ⟨{ w with heap := w.heap.visitRoots xs }, p, [], []⟩
  | traceComplete _, _ => ⟨w, p, [], []⟩
  | drop .., _ => ⟨w, p, [], []⟩

end HostBridge
