import HostBridge.Script.Engine
/-!
# Performing actions

What each action does: it is done at once, or by a command or procedure whose answer gives the
outcome.
-/

namespace HostBridge.Script

inductive Continuation
  | outcome (o : Outcome)
  | made (name : Option String) (x : Option Handle)
  | inspect
  | asleep
  | awake
  | awaited

inductive Deed
  | done (e : Engine) (o : Outcome)
  | throws (v : Value)
  | command (e : Engine) (c : Command Thing AnyFacility) (answer : c.Answer → Continuation)
  | procedure (p : Procedure) (answer : p.Answer → Continuation)

def asks (e : Engine) (c : Command Thing AnyFacility) (read : c.Answer → Outcome) : Deed :=
  .command e c fun a => .outcome (read a)

def runs (p : Procedure) (read : p.Answer → Outcome) : Deed :=
  .procedure p fun a => .outcome (read a)

def option {α : Type} (f : α → Outcome) : Option α → Outcome
  | some a => f a
  | none => .nothing

def ClassPart.outcome (part : ClassPart) : Except Value ClassObjects → Outcome
  | .error v => .thrown v
  | .ok o => match part with
    | constructor => .handle o.constructor
    | prototype => .handle o.prototype
    | both => .classObjects o

def classNames (table : TypeTable) (c : Context) : List String :=
  (c.classes.entries.map fun (t, _) => quoted (table.descriptor t).className).mergeSort
    fun a b => decide (a ≤ b)

def ContextAction.perform (table : TypeTable) (e : Engine) (s : Scope) (x : Context) :
    ContextAction → Deed
  | setTimer mode callback delay arguments =>
    asks e (.setTimer x.id mode (callback.value e s) delay (arguments.map (·.value e s)))
      fun (id : TimerId) => .count id.val.toNat
  | clearTimer id => asks e (.clearTimer x.id id) .flag
  | timer id => .done e (option .timer (x.timers.get? id))
  | installTimer id inner callback arguments mode timeout level =>
    let t := { id := inner, context := x.id, callback := callback.value e s
               arguments := arguments.map (·.value e s), mode, timeout, level }
    asks e (.installTimer x.id id t) .flag
  | removeTimer id => asks e (.removeTimer x.id id) .flag
  | fire id error => runs (.fire x.id id error) .flag
  | requestFrame callback =>
    asks e (.requestFrame x.id (.script (callback.value e s)))
      fun (id : FrameId) => .count id.val.toNat
  | registerFrame id inner callback =>
    asks e (.registerFrame x.id id ⟨inner, x.id, .script (callback.value e s)⟩) .flag
  | cancelFrame id => asks e (.cancelFrame x.id id) .flag
  | frame id => .done e (option .frame (x.frames.get? id))
  | frameIds => .done e (.frameIds x.frames.keys)
  | frames timestamp => runs (.frames x.id timestamp) .count
  | reject promise reason =>
    asks e (.trackUnhandled x.id (promise.handle e s) (reason.value e s)) .flag
  | handle promise reason =>
    asks e (.trackHandled x.id (promise.handle e s) (reason.value e s)) .flag
  | isUnhandled promise => .done e (.flag (x.rejections.isUnhandled (promise.handle e s)))
  | process => runs (.process x.id) .count
  | drain => .procedure (.drain x.id) fun _ => .inspect
  | exception thrown => runs (.exception x.id (thrown.value e s)) fun _ => .nothing
  | lookUp part key =>
    match table.find? key with
    | some t => runs (.classObjects x.id t) part.outcome
    | none => .done e .nothing
  | cached key => .done e (option .classObjects ((table.find? key).bind x.classes.get?))
  | types => .done e (.texts (classNames table x))
  | dispose => .command e (.disposeContext x.id) fun _ => .inspect
  | trace => .done e (.handles (sortedHandles (handles x)))
  | traceComplete => asks e (.reclaim x.id) fun _ => .nothing
  | state => .done e (.state x)

def target? (w : ScriptWorld) (s : Scope) (given : Option ContextId) : Option Context :=
  w.context? (given.getD (s.context.getD ⟨1⟩))

def onBridge (e : Engine) (d : Deed) : Deed := if e.closed then .done e .noRuntime else d

/-- Longest wait for a fire, one hour. -/
def patience : Duration := ⟨3600000⟩

def Action.perform (table : TypeTable) (w : ScriptWorld) (e : Engine) (s : Scope) : Action → Deed
  | throw value => .throws (value.value e s)
  | object name refs =>
    .command e (.allocate (.plain name (handlesOf e s refs))) (.made name)
  | setRefs target refs =>
    let x := target.handle e s
    match w.heap.get? x with
    | some (.plain text _) => asks e (.write x (.plain text (handlesOf e s refs))) .flag
    | _ => .done e (.flag false)
  | label target =>
    match w.heap.get? (target.handle e s) with
    | some (.plain text _) => .done e (.text text)
    | _ => .done e .nothing
  | function name body limit captures =>
    let made := { e with functions := e.functions.push ⟨body, limit⟩ }
    .command made (.allocate (.function (handlesOf e s captures) e.functions.size)) (.made name)
  | job body =>
    let e := { e with jobs := e.jobs ++ [body] }
    .done e (.count e.jobs.length)
  | onEvent type body limit => .done (e.setHandler type ⟨body, limit⟩) .nothing
  | alive target => .done e (.flag (w.heap.alive (target.handle e s)))
  | liveCount => .done e (.count w.heap.liveCount)
  | stats => .done e (.stats w.heap.stats)
  | expire f =>
    match w.facility with
    | .manual _ =>
      asks e (.act (AnyFacility.Act.manual (.expire f))) fun (fires : List Fire) =>
        .flag !fires.isEmpty
    | .clock _ => .done e .nothing
  | expireAll =>
    match w.facility with
    | .manual _ =>
      asks e (.act (AnyFacility.Act.manual .expireAll)) fun (fires : List Fire) =>
        .count fires.length
    | .clock _ => .done e .nothing
  | scheduled => .done e (option .targets (w.facility.manual?.map Manual.targets))
  | pending => .done e (option .count (w.facility.clock?.map Clock.pending))
  | push f => .command e (.post f) fun _ => .inspect
  | queued => .done e (.count w.queue.length)
  | describe key =>
    .done e (option .text ((table.find? key).map fun t =>
      (table.descriptor t).describe table.descriptor))
  | newContext config =>
    onBridge e (match config with
      | some (.error fault) => .done e (.error fault)
      | some (.ok config) =>
        asks e (.createContext (some config)) fun (id : ContextId) => .created id config
      | none => asks e (.createContext none) fun (id : ContextId) => .created id w.defaults)
  | lookup id =>
    onBridge e (match w.find id with
      | .ok id => .done e (.found id (w.isValid id))
      | .error fault => .done e (.error fault))
  | contexts => onBridge e (.done e (.contexts w.liveInOrder))
  | dispose id =>
    onBridge e (asks e (.dispose id) fun (r : Except BridgeError Unit) => match r with
      | .ok _ => .flag true
      | .error fault => .error fault)
  | dispatch f => onBridge e (runs (.dispatch f) .flag)
  | pump => onBridge e (runs .pump .count)
  | framesAll timestamp => onBridge e (runs (.framesAll timestamp) .count)
  | traceAll => onBridge e (.done e (.handles (sortedHandles w.roots)))
  | dropRuntime =>
    if s.context.isSome then .done e .badStep
    else if e.closed then .done e (.flag false)
    else asks { e with closed := true } .close fun _ => .flag true
  | collect roots =>
    let sets := match roots with
      | .bridge => if e.closed then [] else [.bridge]
      | .contexts ids => (ids.filter fun c => (w.context? c).isSome).map RootSet.context
    runs (.collect sets) .count
  | sleep d =>
    match s.context, w.facility with
    | none, .clock _ => .command e (.act (AnyFacility.Act.clock (.sleep d))) fun _ => .inspect
    | _, _ => .done e .badStep
  | advance d =>
    match s.context, w.facility with
    | none, .clock _ => .command e (.act (AnyFacility.Act.clock (.advance d))) fun _ => .inspect
    | _, _ => .done e .badStep
  | nextFires =>
    match s.context, w.facility with
    | none, .clock _ =>
      onBridge e
        (if w.queue.isEmpty then .command e .listen fun _ => .asleep else runs .pump .count)
    | _, _ => .done e .badStep
  | on c a =>
    match target? w s c with
    | some x => a.perform table e s x
    | none => .done e .noContext
  | requestNative c body =>
    match target? w s c with
    | some x =>
      asks { e with natives := e.natives.push body } (.requestFrame x.id (.native e.natives.size))
        fun (id : FrameId) => .count id.val.toNat
    | none => .done e .noContext
  | unknown _ => .done e .badStep

def Action.inspect (w : ScriptWorld) (e : Engine) (s : Scope) : Action → Outcome
  | on c .dispose => .flag ((target? w s c).any Context.valid)
  | on _ _ => .count e.jobs.length
  | _ => .count w.queue.length

end HostBridge.Script
