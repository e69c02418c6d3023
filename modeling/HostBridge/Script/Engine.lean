import HostBridge.Execution.Step
import HostBridge.Host.Choice
import HostBridge.Script.Action
/-!
# The scripted engine

The state of an engine that runs scripts: names, functions with a limit on their calls, one queue of
promise jobs, event handlers, and for each type a limit on how often its class may fail or be
installed. Names keep nothing alive.
-/

namespace HostBridge.Script

structure Routine where
  body : List Action
  limit : Nat
  deriving Repr

inductive Thing
  | plain (label : String) (refs : List Handle)
  | function (captures : List Handle) (routine : Nat)
  deriving DecidableEq, Repr

instance : Traced Thing :=
  ⟨fun
    | .plain _ refs => refs
    | .function captures _ => captures⟩

structure TypeSpec where
  key : String
  descriptor : TypeDescriptor
  installer : List Action := []
  createThrow : Option Operand := none
  limit : Nat := 10
  deriving Repr, Inhabited

abbrev TypeTable := List TypeSpec

namespace TypeTable

def spec (types : TypeTable) (t : TypeId) : TypeSpec := types[t.val]?.getD default

def descriptor (types : TypeTable) (t : TypeId) : TypeDescriptor := (types.spec t).descriptor

def find? (types : TypeTable) (key : String) : Option TypeId :=
  ((types.zipIdx.reverse.find? (·.1.key = key)).map (⟨·.2⟩))

end TypeTable

structure Engine where
  names : List (String × Value) := []
  functions : Array Routine := #[]
  natives : Array (List Action) := #[]
  handlers : List (String × Routine) := []
  jobs : List (List Action) := []
  typeLimits : List Nat
  closed : Bool := false
  deriving Repr

namespace Engine

def create (types : TypeTable) : Engine := { typeLimits := types.map TypeSpec.limit }

def bind (e : Engine) (name : String) (x : Handle) : Engine :=
  { e with names := (name, .object x) :: e.names }

def typeLimit (e : Engine) (t : TypeId) : Nat := e.typeLimits[t.val]?.getD 0

def spendType (e : Engine) (t : TypeId) : Engine :=
  { e with typeLimits := e.typeLimits.modify t.val (· - 1) }

def spendFunction (e : Engine) (n : Nat) : Engine :=
  { e with functions := e.functions.modify n fun r => { r with limit := r.limit - 1 } }

def handler? (e : Engine) (type : String) : Option Routine := e.handlers.lookup type

def setHandler (e : Engine) (type : String) (r : Routine) : Engine :=
  { e with handlers := (type, r) :: e.handlers.filter (·.1 ≠ type) }

end Engine

structure Scope where
  context : Option ContextId := none
  arguments : List Value := []
  deriving Repr

def Operand.value (e : Engine) (s : Scope) : Operand → Value
  | .literal v => v
  | .named name => (e.names.lookup name).getD .undefined
  | .argument i => s.arguments[i]?.getD .undefined

def noObject : Handle := ⟨4294967295, 0⟩

def Operand.handle (e : Engine) (s : Scope) (o : Operand) : Handle :=
  (o.value e s).object?.getD noObject

def handlesOf (e : Engine) (s : Scope) (os : List Operand) : List Handle :=
  os.filterMap fun o => (o.value e s).object?

abbrev ScriptWorld := World Thing AnyFacility

end HostBridge.Script
