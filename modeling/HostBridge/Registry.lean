import HostBridge.Traced
/-!
# Registries

A registry accepts items under keys. An accepted item is active under its key until it is removed;
then it is abandoned, which keeps it traced, until a finished collection lets the registry reclaim
it. `serial` numbers the acceptances, so that two items accepted under one key are told apart.
-/

namespace HostBridge

structure Entry (κ α : Type) where
  key : κ
  serial : Nat
  item : α
  deriving DecidableEq, Repr

structure Registry (κ α : Type) where
  active : List (Entry κ α) := []
  abandoned : List (Entry κ α) := []
  accepted : Nat := 0
  deriving DecidableEq, Repr

namespace Registry

variable {κ α : Type} [DecidableEq κ]

def empty : Registry κ α := {}

def entry? (r : Registry κ α) (k : κ) : Option (Entry κ α) := r.active.find? (·.key = k)

def get? (r : Registry κ α) (k : κ) : Option α := (r.entry? k).map Entry.item

def contains (r : Registry κ α) (k : κ) : Bool := r.active.any (·.key = k)

def keys (r : Registry κ α) : List κ := r.active.map Entry.key

def accept (r : Registry κ α) (k : κ) (item : α) : Registry κ α :=
  if r.contains k then r
  else { r with active := r.active ++ [⟨k, r.accepted, item⟩], accepted := r.accepted + 1 }

def remove (r : Registry κ α) (k : κ) : Registry κ α :=
  match r.entry? k with
  | some e => { r with active := r.active.eraseP (·.key = k), abandoned := r.abandoned ++ [e] }
  | none => r

def abandonAll (r : Registry κ α) : Registry κ α :=
  { r with active := [], abandoned := r.abandoned ++ r.active }

def reclaim (r : Registry κ α) : Registry κ α := { r with abandoned := [] }

def items (r : Registry κ α) : List α := (r.active ++ r.abandoned).map Entry.item

instance [Traced α] : Traced (Registry κ α) := ⟨fun r => r.items.flatMap handles⟩

inductive Op (κ α : Type)
  | accept (k : κ) (item : α)
  | remove (k : κ)
  | abandonAll
  | reclaim

def apply (r : Registry κ α) : Op κ α → Registry κ α
  | .accept k item => r.accept k item
  | .remove k => r.remove k
  | .abandonAll => r.abandonAll
  | .reclaim => r.reclaim

end Registry

end HostBridge
