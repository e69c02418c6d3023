import HostBridge.Traced
import HostBridge.Heap.Marking
/-!
# The script heap

Objects live in slots. Every allocated object has a number of its own, its place in `objects`, so
that it stays the same object while slots are reused; the entry is emptied when the object is
dropped. Native code may hold an object: sweeping the slot then only ends its handles, and the
object is dropped with its last reference.

A collection traces its roots, marks, sweeps every white object into `doomed`, drops those one by
one unless they are held, and records its statistics. No allocation is possible while roots are
traced; an object allocated while others are dropped is black at once, so that it survives.
-/

namespace HostBridge

structure Stats where
  collections : Nat := 0
  marked : Nat := 0
  reclaimed : Nat := 0
  live : Nat := 0
  deriving DecidableEq, Repr, Inhabited

inductive Phase
  | idle
  | tracing (visited : List Handle)
  /-- How many objects were marked and how many were swept. -/
  | dropping (marked reclaimed : Nat)
  deriving DecidableEq, Repr, Inhabited

structure Heap (Obj : Type) where
  slots : Array Slot := #[]
  free : List Nat := []
  objects : Array (Option Obj) := #[]
  /-- The numbers of the objects that native code holds, once for each reference. -/
  held : List Nat := []
  doomed : List Nat := []
  phase : Phase := .idle
  stats : Stats := {}
  allocated : Nat := 0
  threshold : Nat := 1024
  deriving Repr

namespace Heap

variable {Obj : Type}

/-- A heap that asks for a collection every `threshold` allocations, but never before the first. -/
def withThreshold (threshold : Nat) : Heap Obj := { threshold := max threshold 1 }

def setThreshold (h : Heap Obj) (threshold : Nat) : Heap Obj :=
  { h with threshold := max threshold 1 }

def number? (h : Heap Obj) (x : Handle) : Option Nat :=
  match h.slots[x.index.toNat]? with
  | some slot => if slot.header.generation = x.generation then slot.occupant else none
  | none => none

def alive (h : Heap Obj) (x : Handle) : Bool := (h.number? x).isSome

def object? (h : Heap Obj) (n : Nat) : Option Obj := h.objects[n]?.join

def get? (h : Heap Obj) (x : Handle) : Option Obj := (h.number? x).bind h.object?

def liveCount (h : Heap Obj) : Nat := h.slots.countP Slot.occupied

def shouldCollect (h : Heap Obj) : Bool := decide (h.threshold ≤ h.allocated)

def collecting (h : Heap Obj) : Bool := h.phase != .idle

/-- The mark of a new object: objects allocated while others are dropped survive. -/
def birthMark (h : Heap Obj) (header : Header) : Header :=
  if h.collecting then header.withMark .black else header

/-- A free slot is used again before a new one is made. Refused while roots are traced. -/
def allocate (h : Heap Obj) (object : Obj) : Option (Handle × Heap Obj) :=
  match h.phase with
  | .tracing _ => none
  | _ =>
    let number := h.objects.size
    let h' := { h with objects := h.objects.push (some object), allocated := h.allocated + 1 }
    match h.free with
    | index :: free =>
      let header := h.birthMark (h.slots[index]?.getD {}).header
      some (⟨UInt32.ofNat index, header.generation⟩,
        { h' with slots := h.slots.setIfInBounds index ⟨header, some number⟩, free })
    | [] =>
      some (⟨UInt32.ofNat h.slots.size, 0⟩,
        { h' with slots := h.slots.push ⟨h.birthMark {}, some number⟩ })

def write (h : Heap Obj) (x : Handle) (object : Obj) : Heap Obj :=
  match h.number? x with
  | some n => { h with objects := h.objects.setIfInBounds n (some object) }
  | none => h

def retain (h : Heap Obj) (x : Handle) : Option (Nat × Heap Obj) :=
  (h.number? x).map fun n => (n, { h with held := n :: h.held })

def release (h : Heap Obj) (n : Nat) : Heap Obj := { h with held := h.held.erase n }

def isHeld (h : Heap Obj) (n : Nat) : Bool := h.held.contains n

def unreferenced (h : Heap Obj) (n : Nat) : Bool :=
  !h.isHeld n && !h.doomed.contains n && !h.slots.any (·.occupant == some n)

def drop (h : Heap Obj) (n : Nat) : Heap Obj := { h with objects := h.objects.setIfInBounds n none }

def beginTracing (h : Heap Obj) : Heap Obj := { h with phase := .tracing [] }

def visitRoots (h : Heap Obj) (xs : List Handle) : Heap Obj :=
  match h.phase with
  | .tracing visited => { h with phase := .tracing (xs.reverse ++ visited) }
  | _ => h

def references [Traced Obj] (h : Heap Obj) (n : Nat) : List Handle :=
  (h.object? n).elim [] handles

def rooted (h : Heap Obj) (roots : List Handle) : Marking :=
  roots.foldl Marking.visit (Marking.start h.slots)

def mark [Traced Obj] (h : Heap Obj) (roots : List Handle) : Marking :=
  (h.rooted roots).run h.references

def isGarbage (s : Slot) : Bool := s.occupied && s.isWhite

def garbage (slots : Array Slot) : List Nat :=
  (List.range slots.size).filter fun i => (slots[i]?.map isGarbage).getD false

def sweepSlot (s : Slot) : Slot := if isGarbage s then ⟨s.header.bump, none⟩ else s

/-- Empties the slots of all garbage. A slot swept later is used again earlier. -/
def sweep (h : Heap Obj) (m : Marking) : Heap Obj :=
  let garbage := garbage m.slots
  { h with
    slots := m.slots.map sweepSlot
    free := garbage.reverse ++ h.free
    doomed := garbage.filterMap fun i => m.slots[i]?.bind Slot.occupant
    phase := .dropping m.marked garbage.length }

def markAndSweep [Traced Obj] (h : Heap Obj) : Heap Obj :=
  match h.phase with
  | .tracing visited => h.sweep (h.mark visited.reverse)
  | _ => h

/-- Takes the first doomed object off the list. It has no slot any more, so only a native reference
can save it. -/
def letGo (h : Heap Obj) : Option (Nat × Heap Obj) :=
  match h.doomed with
  | n :: rest => some (n, { h with doomed := rest })
  | [] => none

def conclude (h : Heap Obj) : Heap Obj :=
  match h.phase with
  | .dropping marked reclaimed =>
    { h with
      phase := .idle
      allocated := 0
      stats := ⟨h.stats.collections + 1, marked, reclaimed, h.liveCount⟩ }
  | _ => h

end Heap

end HostBridge
