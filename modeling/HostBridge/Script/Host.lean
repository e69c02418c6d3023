import HostBridge.Script.Perform
/-!
# The engine as an embedder

How the engine answers the calls of the bridge. A body performs its actions one after the other; a
throw ends it.
-/

namespace HostBridge.Script

inductive Note
  | limit
  | typeError (c : ContextId) (message : String) (x : Handle)
  | job (c : ContextId)
  | did (action : String) (o : Outcome)
  | answered (o : Outcome)
  deriving Repr

inductive Activity
  | enter
  | body (s : Scope) (todo : List Action)
  | answered (s : Scope) (a : Action) (k : Continuation) (todo : List Action)
  | madeError (message : String) (x : Option Handle)
  | madePrototype (x : Option Handle)
  | madeConstructor (prototype : Handle) (x : Option Handle)
  | ended (thrown : Option Value)

abbrev ScriptTurn (k : Call Thing) := Turn Thing AnyFacility Engine Activity Note k

def proceed {k : Call Thing} (e : Engine) (a : Activity) : ScriptTurn k :=
  { state := e, move := .proceed a }

def remark {k : Call Thing} (e : Engine) (n : Note) (a : Activity) : ScriptTurn k :=
  { state := e, notes := [n], move := .proceed a }

def allocate {k : Call Thing} (e : Engine) (label : String) (refs : List Handle)
    (next : Option Handle → Activity) : ScriptTurn k :=
  { state := e, move := .command (.allocate (.plain label refs)) next }

def errorLabel (message : String) : String := "TypeError: " ++ message

def routine? (w : ScriptWorld) (e : Engine) (v : Value) : Option (Nat × Routine) :=
  match v.object?.bind w.heap.get? with
  | some (.function _ n) => e.functions[n]?.map (n, ·)
  | _ => none

def begin (table : TypeTable) (w : ScriptWorld) (e : Engine) : (k : Call Thing) → ScriptTurn k
  | .session => proceed e (.ended none)
  | .function c _ f _ arguments =>
    match routine? w e f with
    | none => allocate e (errorLabel "not a function") [] (.madeError "not a function")
    | some (n, r) =>
      if r.limit = 0 then remark e .limit (.ended none)
      else proceed (e.spendFunction n) (.body ⟨c, arguments⟩ r.body)
  | .native c _ n timestamp =>
    proceed e (.body ⟨c, [.number timestamp]⟩ (e.natives[n]?.getD []))
  | .job c =>
    match e.jobs with
    | [] => { state := e, move := .finish (none : Option (Except Value Unit)) }
    | body :: jobs => remark { e with jobs } (.job c) (.body ⟨c, []⟩ body)
  | .report .. => proceed e (.ended none)
  | .typeError _ message => allocate e (errorLabel message) [] (.madeError message)
  | .event c kind r =>
    match e.handler? kind.name with
    | some h =>
      if h.limit = 0 then proceed e (.ended none)
      else
        proceed (e.setHandler kind.name ⟨h.body, h.limit - 1⟩)
          (.body ⟨c, [.object r.promise, r.reason]⟩ h.body)
    | none => proceed e (.ended none)
  | .createClass _ t parent =>
    match (table.spec t).createThrow, e.typeLimit t with
    | some thrown, _ + 1 => proceed (e.spendType t) (.ended (some (thrown.value e {})))
    | _, _ =>
      allocate e ((table.descriptor t).className ++ ".prototype") parent.toList .madePrototype
  | .install c t objects =>
    match e.typeLimit t with
    | 0 => proceed e (.ended none)
    | _ + 1 =>
      proceed (e.spendType t)
        (.body ⟨c, [.object objects.constructor, .object objects.prototype]⟩
          (table.spec t).installer)
  | .traceRoots _ => { state := e, move := .finish ([] : List Handle) }
  | .traceComplete _ => proceed e (.ended none)
  | .drop .. => proceed e (.ended none)

/-- The last turn of a call whose code has ended. What native callbacks and event handlers throw is
an exception of their context. -/
def finish (e : Engine) (thrown : Option Value) : (k : Call Thing) → ScriptTurn k
  | .session =>
    { state := e, notes := (thrown.map fun v => Note.answered (.thrown v)).toList
      move := .finish (() : Unit) }
  | .function .. =>
    let reply : Except Value Value := thrown.elim (.ok .undefined) .error
    { state := e, move := .finish reply }
  | .native c .. => uncaught c ()
  | .job _ =>
    let reply : Option (Except Value Unit) := some (thrown.elim (.ok ()) .error)
    { state := e, move := .finish reply }
  | .report .. => { state := e, move := .finish (() : Unit) }
  | .typeError .. => { state := e, move := .finish (thrown.getD .undefined) }
  | .event c .. => uncaught c ()
  | .createClass .. =>
    let reply : Except Value ClassObjects := .error (thrown.getD .undefined)
    { state := e, move := .finish reply }
  | .install .. =>
    let reply : Except Value Unit := thrown.elim (.ok ()) .error
    { state := e, move := .finish reply }
  | .traceRoots _ => { state := e, move := .finish ([] : List Handle) }
  | .traceComplete _ => { state := e, move := .finish (() : Unit) }
  | .drop .. => { state := e, move := .finish (() : Unit) }
where
  uncaught {k : Call Thing} (c : ContextId) (reply : k.Reply) : ScriptTurn k :=
    match thrown with
    | some v => { state := e, move := .procedure (.exception c v) fun _ => .ended none }
    | none => { state := e, move := .finish reply }

def note {k : Call Thing} (e : Engine) (s : Scope) (a : Action) (o : Outcome)
    (todo : List Action) : ScriptTurn k :=
  let n := if s.context.isSome then Note.did a.name o else .answered o
  remark e n (.body s todo)

def Engine.bindMade (e : Engine) : Option String → Option Handle → Engine
  | some name, some x => e.bind name x
  | _, _ => e

def act {k : Call Thing} (table : TypeTable) (w : ScriptWorld) (e : Engine) (s : Scope) (a : Action)
    (todo : List Action) : ScriptTurn k :=
  match a.perform table w e s with
  | .done e o => note e s a o todo
  | .throws v => proceed e (.ended (some v))
  | .command e c answer =>
    { state := e, move := .command c fun r => .answered s a (answer r) todo }
  | .procedure p answer =>
    { state := e, move := .procedure p fun r => .answered s a (answer r) todo }

def settle {k : Call Thing} (w : ScriptWorld) (e : Engine) (s : Scope) (a : Action)
    (answer : Continuation) (todo : List Action) : ScriptTurn k :=
  match answer with
  | .outcome o => note e s a o todo
  | .made name x => note (e.bindMade name x) s a (option .handle x) todo
  | .inspect => note e s a (a.inspect w e s) todo
  | .asleep =>
    { state := e
      move := .command (.act (AnyFacility.Act.clock (.wait patience))) fun _ =>
        .answered s a .awake todo }
  | .awake => { state := e, move := .command .leave fun _ => .answered s a .awaited todo }
  | .awaited =>
    if w.queue.isEmpty then note e s a (.text "timeout") todo
    else
      { state := e
        move := .procedure .pump fun n => .answered s a (.outcome (.count n)) todo }

def next (table : TypeTable) (k : Call Thing) (w : ScriptWorld) (e : Engine) :
    Activity → ScriptTurn k
  | .enter => begin table w e k
  | .body _ [] => proceed e (.ended none)
  | .body s (a :: todo) => act table w e s a todo
  | .answered s a answer todo => settle w e s a answer todo
  | .madeError message x =>
    let x := x.getD noObject
    match k with
    | .function c .. => remark e (.typeError c message x) (.ended (some (.object x)))
    | .typeError c _ => remark e (.typeError c message x) (.ended (some (.object x)))
    | _ => proceed e (.ended none)
  | .madePrototype x =>
    let prototype := x.getD noObject
    match k with
    | .createClass _ t _ =>
      allocate e (table.descriptor t).className [prototype] (.madeConstructor prototype)
    | _ => proceed e (.ended none)
  | .madeConstructor prototype x =>
    match k with
    | .createClass .. =>
      let reply : Except Value ClassObjects := .ok ⟨x.getD noObject, prototype⟩
      { state := e, move := .finish reply }
    | _ => proceed e (.ended none)
  | .ended thrown => finish e thrown k

def host (table : TypeTable) : Embedder Thing AnyFacility where
  State := Engine
  Activity := Activity
  Note := Note
  types := table.descriptor
  alive _ heap x := heap.alive x
  enter _ := .enter
  next := next table

end HostBridge.Script
