import HostBridge.Heap.Basic
/-!
# Heap scripts

A small language for driving a heap, with labels of any type: leaves hold a label, nodes also hold
references and perhaps the steps of a hook that runs when they are dropped, and root sets may run
steps when they are traced and when the collection has finished.
-/

namespace HostBridge.HeapScript

inductive Ref
  | named (name : String)
  | raw (x : Handle)
  deriving DecidableEq, Repr

mutual

inductive Step (α : Type)
  | allocLeaf (label : α) (name : String)
  | allocNode (label : α) (refs : List Ref) (onDrop : List (Step α)) (name : String)
  | allocChain (labels : List α) (name : String)
  | setRefs (object : Ref) (refs : List Ref)
  | getLeaf (object : Ref)
  | getNode (object : Ref)
  | hold (object : Ref) (name : String)
  | release (name : String)
  | held (name : String)
  | alive (object : Ref)
  | liveCount
  | shouldCollect
  | setThreshold (n : Nat)
  | stats
  | collect (roots : List (Roots α))
  | unknown (name : String)

inductive Roots (α : Type)
  | plain (handles : List Ref)
  | hooked (handles : List Ref) (onTrace onComplete : List (Step α))

end

variable {α : Type}

instance : Inhabited (Step α) := ⟨.liveCount⟩

instance : Inhabited (Roots α) := ⟨.plain []⟩

def Step.name : Step α → String
  | allocLeaf .. => "alloc"
  | allocNode .. => "alloc"
  | allocChain .. => "alloc_chain"
  | setRefs .. => "set_refs"
  | getLeaf _ => "get_leaf"
  | getNode _ => "get_node"
  | hold .. => "hold"
  | release _ => "release"
  | held _ => "held"
  | alive _ => "alive"
  | liveCount => "live_count"
  | shouldCollect => "should_collect"
  | setThreshold _ => "set_threshold"
  | stats => "stats"
  | collect _ => "collect"
  | unknown name => name

inductive Outcome (α : Type)
  | nothing
  | flag (b : Bool)
  | count (n : Nat)
  | handle (x : Handle)
  | label (l : α)
  | leaf (l : α)
  | node (l : α) (refs : List Handle)
  | stats (s : Stats)
  | badStep

inductive Item (α : Type)
  | leaf (label : α)
  | node (label : α) (refs : List Handle) (onDrop : Option (List (Step α)))

instance : Traced (Item α) :=
  ⟨fun
    | .leaf _ => []
    | .node _ refs _ => refs⟩

end HostBridge.HeapScript
