/-!
# Slot headers

Each slot of the heap carries a mark for the collection in progress and a generation, which moves on
whenever the slot is reclaimed.
-/

namespace HostBridge

/-- White objects have not been visited, gray ones wait for their references, black ones are done. -/
inductive Mark
  | white
  | gray
  | black
  deriving DecidableEq, Repr, Inhabited

namespace Mark

def number : Mark → Nat
  | white => 0
  | gray => 1
  | black => 2

def name : Mark → String
  | white => "White"
  | gray => "Gray"
  | black => "Black"

end Mark

structure Header where
  mark : Mark := .white
  generation : UInt32 := 0
  deriving DecidableEq, Repr, Inhabited

namespace Header

def withMark (h : Header) (mark : Mark) : Header := { h with mark }

/-- Ends the current generation: no handle issued so far names the slot any more. -/
def bump (h : Header) : Header := ⟨.white, h.generation + 1⟩

end Header

end HostBridge
