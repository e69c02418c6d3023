import HostBridge.Text.Described
import HostBridge.Text.Quoted
import HostBridge.Traced
/-!
# Script classes

A native type that script can see is known by its number; its descriptor gives the class name, the
parent and whether an installer adds members. A context keeps the class objects it has created.
-/

namespace HostBridge

structure TypeId where
  val : Nat
  deriving DecidableEq, Repr, Inhabited

structure TypeDescriptor where
  className : String
  parent : Option TypeId := none
  installs : Bool := false
  deriving DecidableEq, Repr, Inhabited

def TypeDescriptor.describe (types : TypeId → TypeDescriptor) (d : TypeDescriptor) : String :=
  let parent := d.parent.map fun p => quoted (types p).className
  Described.record "TypeDescriptor"
    [("class_name", quoted d.className), ("parent", Described.option parent)]

structure ClassCache where
  entries : List (TypeId × ClassObjects) := []
  deriving DecidableEq, Repr

namespace ClassCache

def get? (c : ClassCache) (t : TypeId) : Option ClassObjects := c.entries.lookup t

def erase (c : ClassCache) (t : TypeId) : ClassCache := ⟨c.entries.filter (·.1 ≠ t)⟩

def insert (c : ClassCache) (t : TypeId) (objects : ClassObjects) : ClassCache :=
  ⟨(c.erase t).entries ++ [(t, objects)]⟩

def live? (c : ClassCache) (alive : Handle → Bool) (t : TypeId) : Option ClassObjects :=
  (c.get? t).filter fun o => alive o.constructor && alive o.prototype

/-- The cache after a look-up: a class with a dead object is forgotten. -/
def evict (c : ClassCache) (alive : Handle → Bool) (t : TypeId) : ClassCache :=
  if (c.live? alive t).isSome then c else c.erase t

def clear : ClassCache := {}

def size (c : ClassCache) : Nat := c.entries.length

instance : Traced ClassCache := ⟨fun c => c.entries.flatMap fun (_, o) => handles o⟩

end ClassCache

end HostBridge
