import HostBridge.Execution.Step
import HostBridge.HeapScript.Step
import HostBridge.Host.Manual
/-!
# Running heap scripts

The embedder that performs heap scripts. It uses the heap alone.
-/

namespace HostBridge.HeapScript

variable {α : Type}

structure Hooked (α : Type) where
  handles : List Ref
  onTrace : List (Step α)
  onComplete : List (Step α)

structure Engine (α : Type) where
  names : List (String × Handle) := []
  held : List (String × Nat) := []
  hooked : Array (Hooked α) := #[]

inductive Hook
  | drop
  | trace
  | complete
  deriving DecidableEq, Repr

def Hook.name : Hook → String
  | drop => "drop"
  | trace => "trace"
  | complete => "complete"

inductive Note (α : Type)
  | dropped (label : α)
  | did (h : Hook) (step : String) (o : Outcome α)
  | answered (o : Outcome α)

inductive Continuation (α : Type)
  | outcome (o : Outcome α)
  | made (name : Option String) (x : Option Handle)
  | inspect
  | chain (labels : List α) (name : String) (last : Option Handle)
  | retained (name : String) (n : Option Nat)

inductive Activity (α : Type)
  | enter
  | body (roots : List Handle) (todo : List (Step α))
  | answered (roots : List Handle) (s : Step α) (k : Continuation α) (todo : List (Step α))

def nowhere : Handle := ⟨4294967295, 4294967295⟩

def Ref.handle (e : Engine α) : Ref → Handle
  | .named name => (e.names.lookup name).getD nowhere
  | .raw x => x

def Engine.bind (e : Engine α) (name : String) (x : Handle) : Engine α :=
  { e with names := (name, x) :: e.names }

def Engine.hold (e : Engine α) (name : String) (n : Nat) : Engine α :=
  { e with held := (name, n) :: e.held.filter (·.1 ≠ name) }

def Engine.letGo (e : Engine α) (name : String) : Engine α :=
  { e with held := e.held.filter (·.1 ≠ name) }

abbrev HeapWorld (α : Type) := World (Item α) Manual

inductive Deed (α : Type)
  | done (e : Engine α) (o : Outcome α)
  | command (e : Engine α) (c : Command (Item α) Manual) (answer : c.Answer → Continuation α)
  | procedure (e : Engine α) (p : Procedure) (answer : p.Answer → Continuation α)

def allocate (e : Engine α) (item : Item α) (name : Option String) : Deed α :=
  .command e (.allocate item) (.made name)

def growChain (e : Engine α) (last : Option Handle) (name : String) : List α → Deed α
  | [] => .done (last.elim e (e.bind name)) (last.elim .nothing .handle)
  | label :: labels =>
    .command e (.allocate (.node label last.toList none)) fun (x : Option Handle) =>
      .chain labels name x

def node? (w : HeapWorld α) (e : Engine α) (r : Ref) : Option (Item α) :=
  match w.heap.get? (r.handle e) with
  | some (.node label refs onDrop) => some (.node label refs onDrop)
  | _ => none

def rootSets (e : Engine α) : List (Roots α) → Engine α × List RootSet
  | [] => (e, [])
  | .plain refs :: rest =>
    let (e, sets) := rootSets e rest
    (e, .handles (refs.map (·.handle e)) :: sets)
  | .hooked refs onTrace onComplete :: rest =>
    let number := e.hooked.size
    let (e, sets) := rootSets { e with hooked := e.hooked.push ⟨refs, onTrace, onComplete⟩ } rest
    (e, .external number :: sets)

def Step.perform (w : HeapWorld α) (e : Engine α) : Step α → Deed α
  | allocLeaf label name => allocate e (.leaf label) name
  | allocNode label refs onDrop name =>
    allocate e (.node label (refs.map (·.handle e)) (some onDrop)) name
  | allocChain labels name => growChain e none name labels
  | setRefs object refs =>
    match node? w e object with
    | some (.node label _ onDrop) =>
      .command e (.write (object.handle e) (.node label (refs.map (·.handle e)) onDrop))
        fun (b : Bool) => .outcome (.flag b)
    | _ => .done e (.flag false)
  | getLeaf object =>
    match w.heap.get? (object.handle e) with
    | some (.leaf label) => .done e (.leaf label)
    | _ => .done e .nothing
  | getNode object =>
    match w.heap.get? (object.handle e) with
    | some (.node label refs _) => .done e (.node label refs)
    | _ => .done e .nothing
  | hold object name =>
    match node? w e object with
    | some _ => .command e (.retain (object.handle e)) (.retained name)
    | none => .done e (.flag false)
  | release name =>
    match e.held.lookup name with
    | some n => .procedure (e.letGo name) (.release n) fun _ => .outcome (.flag true)
    | none => .done e (.flag false)
  | held name =>
    match (e.held.lookup name).bind w.heap.object? with
    | some (.node label _ _) => .done e (.label label)
    | _ => .done e .nothing
  | alive object => .done e (.flag (w.heap.alive (object.handle e)))
  | liveCount => .done e (.count w.heap.liveCount)
  | shouldCollect => .done e (.flag w.heap.shouldCollect)
  | setThreshold n => .command e (.setThreshold n) fun _ => .inspect
  | stats => .done e (.stats w.heap.stats)
  | collect roots =>
    let (e, sets) := rootSets e roots
    .procedure e (.collect sets) fun (n : Nat) => .outcome (.count n)
  | unknown _ => .done e .badStep

abbrev HeapTurn (α : Type) (k : Call (Item α)) :=
  Turn (Item α) Manual (Engine α) (Activity α) (Note α) k

variable {k : Call (Item α)}

def proceed (e : Engine α) (a : Activity α) : HeapTurn α k :=
  { state := e, move := .proceed a }

def remark (e : Engine α) (n : Note α) (a : Activity α) : HeapTurn α k :=
  { state := e, notes := [n], move := .proceed a }

def hook? : Call (Item α) → Option Hook
  | .drop .. => some .drop
  | .traceRoots _ => some .trace
  | .traceComplete _ => some .complete
  | _ => none

def note (e : Engine α) (roots : List Handle) (s : Step α) (o : Outcome α)
    (todo : List (Step α)) : HeapTurn α k :=
  let n := match hook? k with
    | some h => Note.did h s.name o
    | none => .answered o
  remark e n (.body roots todo)

def Engine.bindMade (e : Engine α) : Option String → Option Handle → Engine α
  | some name, some x => e.bind name x
  | _, _ => e

def act (d : Deed α) (roots : List Handle) (s : Step α) (todo : List (Step α)) : HeapTurn α k :=
  match d with
  | .done e o => note e roots s o todo
  | .command e c answer =>
    { state := e, move := .command c fun r => .answered roots s (answer r) todo }
  | .procedure e p answer =>
    { state := e, move := .procedure p fun r => .answered roots s (answer r) todo }

def settle (w : HeapWorld α) (e : Engine α) (roots : List Handle) (s : Step α)
    (answer : Continuation α) (todo : List (Step α)) : HeapTurn α k :=
  match answer with
  | .outcome o => note e roots s o todo
  | .made name x => note (e.bindMade name x) roots s (x.elim .nothing .handle) todo
  | .inspect => note e roots s (.flag w.heap.shouldCollect) todo
  | .chain labels name last => act (growChain e last name labels) roots s todo
  | .retained name n =>
    match n, e.held.lookup name with
    | some n, some before =>
      act (.procedure (e.hold name n) (.release before) fun _ => .outcome (.flag true)) roots s todo
    | some n, none => note (e.hold name n) roots s (.flag true) todo
    | none, _ => note e roots s (.flag false) todo

def begin (e : Engine α) : (k : Call (Item α)) → HeapTurn α k
  | .drop _ (.node label _ (some onDrop)) => remark e (.dropped label) (.body [] onDrop)
  | .traceRoots n =>
    match e.hooked[n]? with
    | some h => proceed e (.body (h.handles.map (·.handle e)) h.onTrace)
    | none => proceed e (.body [] [])
  | .traceComplete n =>
    match e.hooked[n]? with
    | some h => proceed e (.body [] h.onComplete)
    | none => proceed e (.body [] [])
  | _ => proceed e (.body [] [])

/-- What a call returns whose body is done. The calls that concern contexts are never made. -/
def reply (roots : List Handle) : (k : Call (Item α)) → k.Reply
  | .session => ()
  | .function .. => .error .undefined
  | .native .. => ()
  | .job _ => none
  | .report .. => ()
  | .typeError .. => Value.undefined
  | .event .. => ()
  | .createClass .. => .error .undefined
  | .install .. => .error .undefined
  | .traceRoots _ => roots
  | .traceComplete _ => ()
  | .drop .. => ()

def next (k : Call (Item α)) (w : HeapWorld α) (e : Engine α) : Activity α → HeapTurn α k
  | .enter => begin e k
  | .body roots [] => { state := e, move := .finish (reply roots k) }
  | .body roots (s :: todo) => act (s.perform w e) roots s todo
  | .answered roots s answer todo => settle w e roots s answer todo

def host (α : Type) : Embedder (Item α) Manual where
  State := Engine α
  Activity := Activity α
  Note := Note α
  types _ := default
  alive _ heap x := heap.alive x
  enter _ := .enter
  next := next

inductive Entry (α : Type)
  | dropped (label : α)
  | did (h : Hook) (step : String) (o : Outcome α)

def Entry.ofEvent? : Event (host α) → Option (Entry α)
  | .note n => match n with
    | .dropped label => some (.dropped label)
    | .did h step o => some (.did h step o)
    | .answered _ => none
  | _ => none

def answered? : Event (host α) → Option (Outcome α)
  | .note n => match n with
    | .answered o => some o
    | _ => none
  | _ => none

structure Session (α : Type) where
  world : HeapWorld α
  engine : Engine α

namespace Session

def create (heap : Heap (Item α)) : Session α := ⟨{ heap, facility := {} }, {}⟩

/-- More moves than any script takes: a hook runs no hook of its own before it has ended. -/
def fuel : Nat := Nat.pow 2 62

def perform (s : Session α) (step : Step α) : Session α × Outcome α × List (Entry α) :=
  let start : Execution (host α) := .start s.world s.engine (Activity.body [] [step])
  let x := start.run fuel
  let events := x.history.reverse
  (⟨x.world, x.state⟩, (events.findSome? answered?).getD .nothing,
    events.filterMap Entry.ofEvent?)

end Session

end HostBridge.HeapScript
