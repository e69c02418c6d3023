import HostBridge.Handle
import HostBridge.Heap.Header
/-!
# Marking

Marking starts from all slots white. Visiting a handle turns its white slot gray and puts the handle
on the worklist; a step takes the newest handle off the list, visits the references of its object and
turns the slot black. A visit to a free slot, to another generation or to a marked object changes
nothing, so the white slots run out: `weight` falls with every step, and the list ends empty.
-/

namespace HostBridge

/-- A place for one object. The occupant is the object's number, which no other object ever has. -/
structure Slot where
  header : Header := {}
  occupant : Option Nat := none
  deriving DecidableEq, Repr, Inhabited

namespace Slot

def occupied (s : Slot) : Bool := s.occupant.isSome

def withMark (s : Slot) (mark : Mark) : Slot := { s with header := s.header.withMark mark }

def names (s : Slot) (x : Handle) : Bool := s.occupied && s.header.generation == x.generation

def isWhite (s : Slot) : Bool := s.header.mark == .white

end Slot

structure Marking where
  slots : Array Slot
  work : List Handle := []
  marked : Nat := 0
  deriving Repr

namespace Marking

def start (slots : Array Slot) : Marking := { slots := slots.map (·.withMark .white) }

def visit (m : Marking) (x : Handle) : Marking :=
  if h : x.index.toNat < m.slots.size then
    let slot := m.slots[x.index.toNat]
    if slot.names x && slot.isWhite then
      { m with slots := m.slots.set x.index.toNat (slot.withMark .gray), work := x :: m.work }
    else m
  else m

def step (refs : Nat → List Handle) (m : Marking) : Marking :=
  match m.work with
  | [] => m
  | x :: rest =>
    let occupant := m.slots[x.index.toNat]?.bind Slot.occupant
    let scanned := ((occupant.map refs).getD []).foldl visit { m with work := rest }
    { scanned with
      slots := scanned.slots.modify x.index.toNat (·.withMark .black), marked := scanned.marked + 1 }

def whites (m : Marking) : Nat := m.slots.countP Slot.isWhite

def weight (m : Marking) : Nat := 2 * m.whites + m.work.length

theorem visit_weight (m : Marking) (x : Handle) : (m.visit x).weight ≤ m.weight := by
  unfold visit
  split
  · rename_i h
    dsimp only
    split
    · rename_i guard
      have white : (m.slots[x.index.toNat]).isWhite = true := by
        simp only [Bool.and_eq_true] at guard
        exact guard.2
      have gray : ((m.slots[x.index.toNat]).withMark .gray).isWhite = false := rfl
      have pos : 0 < m.slots.countP Slot.isWhite :=
        Array.countP_pos_iff.mpr ⟨_, Array.getElem_mem h, white⟩
      simp only [weight, whites, Array.countP_set, white, gray, if_true, List.length_cons,
        Bool.false_eq_true, if_false]
      omega
    · exact Nat.le_refl _
  · exact Nat.le_refl _

theorem foldl_visit_weight (xs : List Handle) (m : Marking) :
    (xs.foldl visit m).weight ≤ m.weight := by
  induction xs generalizing m with
  | nil => exact Nat.le_refl _
  | cons x xs ih => exact Nat.le_trans (ih (m.visit x)) (m.visit_weight x)

theorem modify_eq_set {slots : Array Slot} {i : Nat} (h : i < slots.size) (f : Slot → Slot) :
    slots.modify i f = slots.set i (f slots[i]) := by
  apply Array.ext
  · simp
  · intro j h₁ h₂
    simp only [Array.getElem_modify, Array.getElem_set]
    split
    · rename_i e
      subst e
      rfl
    · rfl

theorem countP_modify_black (slots : Array Slot) (i : Nat) :
    (slots.modify i (·.withMark .black)).countP Slot.isWhite ≤ slots.countP Slot.isWhite := by
  by_cases h : i < slots.size
  · have black : ((slots[i]).withMark .black).isWhite = false := rfl
    rw [modify_eq_set h, Array.countP_set h, black]
    split <;> simp
  · have same : slots.modify i (·.withMark .black) = slots := by
      apply Array.ext
      · simp
      · intro j h₁ h₂
        have ne : i ≠ j := fun e => h (e ▸ h₂)
        simp [Array.getElem_modify, ne]
    exact Nat.le_of_eq (congrArg (Array.countP Slot.isWhite) same)

theorem step_weight (refs : Nat → List Handle) (m : Marking) (x : Handle) (rest : List Handle)
    (h : m.work = x :: rest) : (m.step refs).weight < m.weight := by
  have scan := foldl_visit_weight (((m.slots[x.index.toNat]?.bind Slot.occupant).map refs).getD [])
    { m with work := rest }
  simp only [step, h]
  simp only [weight, whites, h, List.length_cons] at scan ⊢
  have black := countP_modify_black
    ((((m.slots[x.index.toNat]?.bind Slot.occupant).map refs).getD []).foldl visit
      { m with work := rest }).slots x.index.toNat
  omega

def run (refs : Nat → List Handle) (m : Marking) : Marking :=
  match _h : m.work with
  | [] => m
  | _ :: _ => run refs (m.step refs)
termination_by m.weight
decreasing_by exact step_weight refs m _ _ _h

end Marking

end HostBridge
