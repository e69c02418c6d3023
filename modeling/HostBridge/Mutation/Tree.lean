import HostBridge.Mutation.Group
/-!
# Trees of observed nodes

Nodes with a parent among the nodes before them and with the registrations of their observers.
-/

namespace HostBridge.Mutation

structure Node where
  handle : Handle
  parent : Option Nat
  registrations : Registrations := {}
  deriving DecidableEq, Repr

structure Tree where
  nodes : List Node := []
  deriving DecidableEq, Repr

namespace Tree

def chain (t : Tree) (i : Nat) : List Registrations :=
  match t.nodes[i]? with
  | none => []
  | some n =>
    n.registrations :: match n.parent with
      | some p => if p < i then chain t p else []
      | none => []

def update (t : Tree) (i : Nat) (f : Registrations → Registrations) : Tree :=
  ⟨t.nodes.modify i fun n => { n with registrations := f n.registrations }⟩

def registrations (t : Tree) (i : Nat) : Registrations :=
  (t.nodes[i]?.map Node.registrations).getD {}

end Tree

end HostBridge.Mutation
