import HostBridge.Script.Host
/-!
# Sessions

A session performs actions one by one, each to its end, and tells the outcome and what was logged
meanwhile. After each action the timers that are due ring.
-/

namespace HostBridge.Script

inductive Entry
  | schedule (t : Target) (delay : Duration) (repeats : Bool)
  | cancel (t : Target)
  | call (c : ContextId) (function this : Value) (arguments : List Value)
  | limit
  | typeError (c : ContextId) (message : String) (x : Handle)
  | job (c : ContextId)
  | exception (c : ContextId) (thrown : Value)
  | event (c : ContextId) (type : String) (promise : Handle) (reason : Value)
  | createClass (c : ContextId) (name : String) (parent : Option Handle)
  | install (c : ContextId) (name : String)
  | native (c : ContextId) (timestamp : Double)
  | did (action : String) (o : Outcome)
  deriving Repr

def Entry.ofCall? (table : TypeTable) : Call Thing → Option Entry
  | .function c _ f this arguments => some (.call c f this arguments)
  | .native c _ _ timestamp => some (.native c timestamp)
  | .report c thrown => some (.exception c thrown)
  | .event c kind r => some (.event c kind.name r.promise r.reason)
  | .createClass c t parent => some (.createClass c (table.descriptor t).className parent)
  | .install c t _ => some (.install c (table.descriptor t).className)
  | _ => none

def Entry.ofNote? : Note → Option Entry
  | .limit => some .limit
  | .typeError c message x => some (.typeError c message x)
  | .job c => some (.job c)
  | .did action o => some (.did action o)
  | .answered _ => none

def Entry.ofEvent? (table : TypeTable) : Event (host table) → Option Entry
  | .called k => ofCall? table k
  | .signal (.scheduled t delay repeats) => some (.schedule t delay repeats)
  | .signal (.cancelled t) => some (.cancel t)
  | .note n => ofNote? n
  | _ => none

def answered? {table : TypeTable} : Event (host table) → Option Outcome
  | .note n => match n with
    | .answered o => some o
    | _ => none
  | _ => none

structure Session where
  world : ScriptWorld
  engine : Engine

namespace Session

def create (table : TypeTable) (facility : AnyFacility) (defaults : Config) : Session :=
  ⟨{ facility, defaults }, .create table⟩

/-- More steps than any script takes: limits end every function, handler and installer. -/
def fuel : Nat := Nat.pow 2 62

def settled (w : ScriptWorld) : ScriptWorld := (w.act (AnyFacility.Act.clock .settle)).1

def perform (table : TypeTable) (s : Session) (a : Action) : Session × Outcome × List Entry :=
  let start : Execution (host table) := .start s.world s.engine (Activity.body {} [a])
  let x := start.run fuel
  let events := x.history.reverse
  (⟨settled x.world, x.state⟩, (events.findSome? answered?).getD .nothing,
    events.filterMap (Entry.ofEvent? table))

end Session

end HostBridge.Script
