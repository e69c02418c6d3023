import HostBridge.Value
/-!
# Tracing

What holds script handles reports them all to the collector, each as often as it is held.
-/

namespace HostBridge

class Traced (α : Type) where
  handles : α → List Handle

export Traced (handles)

instance : Traced Handle := ⟨fun h => [h]⟩

instance : Traced Value := ⟨fun v => v.object?.toList⟩

instance {α : Type} [Traced α] : Traced (Option α) := ⟨fun o => o.toList.flatMap handles⟩

instance {α : Type} [Traced α] : Traced (List α) := ⟨fun l => l.flatMap handles⟩

structure ClassObjects where
  constructor : Handle
  prototype : Handle
  deriving DecidableEq, Repr, Inhabited

instance : Traced ClassObjects := ⟨fun c => [c.constructor, c.prototype]⟩

inductive Container
  | nothing
  | handle (h : Handle)
  | value (v : Value)
  | classObjects (c : ClassObjects)
  | wrapped (inner : Container)
  | list (items : List Container)
  deriving Repr, Inhabited

namespace Container

def handles : Container → List Handle
  | nothing => []
  | handle h => [h]
  | value v => Traced.handles v
  | classObjects c => Traced.handles c
  | wrapped inner => inner.handles
  | list items => go items
where
  go : List Container → List Handle
    | [] => []
    | c :: rest => c.handles ++ go rest

instance : Traced Container := ⟨Container.handles⟩

end Container

end HostBridge
