import HostBridge.Mutation.Observer
/-!
# Registrations

The observers that watch a node, each with its options and, for attributes, perhaps a filter.
Observing a node again replaces both.
-/

namespace HostBridge.Mutation

structure Interests where
  members : List (Nat × Options) := []
  deriving DecidableEq, Repr

namespace Interests

def get? (m : Interests) (observer : Nat) : Option Options := m.members.lookup observer

/-- An observer that is there already gets the options in addition to its own. -/
def add (m : Interests) (observer : Nat) (options : Options) : Interests :=
  if (m.get? observer).isSome then
    ⟨m.members.map fun (o, merged) => (o, if o = observer then merged.union options else merged)⟩
  else ⟨m.members ++ [(observer, options)]⟩

def size (m : Interests) : Nat := m.members.length

def isEmpty (m : Interests) : Bool := m.members.isEmpty

end Interests

structure Registration where
  observer : Nat
  options : Options
  filter : List String
  deriving DecidableEq, Repr

def Registration.receives (r : Registration) (isTarget : Bool) (kind : Kind)
    (attributeName : Option String) : Bool :=
  (isTarget || r.options.contains .subtree) && r.options.contains kind.option &&
    (kind != .attributes || !r.options.contains .attributeFilter ||
      attributeName.any r.filter.contains)

structure Registrations where
  list : List Registration := []
  deriving DecidableEq, Repr

namespace Registrations

/-- A filter that lists anything sets the filter flag. -/
def optionsFor (options : Options) (filter : List String) : Options :=
  if filter.isEmpty then options else options.union .attributeFilter

def observe (r : Registrations) (observer : Nat) (options : Options) (filter : List String) :
    Registrations :=
  let registration := ⟨observer, optionsFor options filter, filter⟩
  if r.list.any (·.observer = observer) then
    ⟨r.list.map fun x => if x.observer = observer then registration else x⟩
  else ⟨r.list ++ [registration]⟩

def isObserving (r : Registrations) (observer : Nat) : Bool := r.list.any (·.observer = observer)

def unobserve (r : Registrations) (observer : Nat) : Registrations :=
  ⟨r.list.filter (·.observer ≠ observer)⟩

def collect (r : Registrations) (m : Interests) (kind : Kind) (attributeName : Option String)
    (isTarget : Bool) : Interests :=
  (r.list.filter (·.receives isTarget kind attributeName)).foldl
    (fun m x => m.add x.observer x.options) m

def handles (r : Registrations) (o : Observers) : List Handle :=
  r.list.flatMap fun x => o.handlesOf x.observer

inductive Op
  | observe (observer : Nat) (options : Options) (filter : List String)
  | unobserve (observer : Nat)

def apply (r : Registrations) : Op → Registrations
  | .observe observer options filter => r.observe observer options filter
  | .unobserve observer => r.unobserve observer

end Registrations

end HostBridge.Mutation
