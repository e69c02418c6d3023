import HostBridge.Heap.Basic
/-!
# Views of the slots

What stands at an index: the occupant, the generation and the mark. A handle names an object exactly
when the generation at its index is its own and there is an occupant.
-/

namespace HostBridge

namespace Slot

def isBlack (s : Slot) : Bool := s.header.mark == .black

def occupantAt (slots : Array Slot) (i : Nat) : Option Nat := slots[i]?.bind occupant

def generationAt (slots : Array Slot) (i : Nat) : Option UInt32 :=
  slots[i]?.map (·.header.generation)

def markAt (slots : Array Slot) (i : Nat) : Option Mark := slots[i]?.map (·.header.mark)

def numberAt (slots : Array Slot) (x : Handle) : Option Nat :=
  if generationAt slots x.index.toNat = some x.generation then occupantAt slots x.index.toNat
  else none

theorem numberAt_eq_some {slots : Array Slot} {x : Handle} {n : Nat} :
    numberAt slots x = some n ↔
      generationAt slots x.index.toNat = some x.generation ∧
        occupantAt slots x.index.toNat = some n := by
  simp [numberAt]

theorem eq_of_numberAt {slots : Array Slot} {x y : Handle} {m n : Nat}
    (hx : numberAt slots x = some m) (hy : numberAt slots y = some n)
    (same : x.index.toNat = y.index.toNat) : x = y := by
  have gx := (numberAt_eq_some.mp hx).1
  have gy := (numberAt_eq_some.mp hy).1
  rw [same, gy] at gx
  have generation : x.generation = y.generation := (Option.some.inj gx).symm
  have index : x.index = y.index := UInt32.toNat_inj.mp same
  cases x
  cases y
  simp_all

theorem occupantAt_push (slots : Array Slot) (s : Slot) (i : Nat) :
    occupantAt (slots.push s) i = if i = slots.size then s.occupant else occupantAt slots i := by
  simp only [occupantAt, Array.getElem?_push]
  split <;> rfl

theorem generationAt_push (slots : Array Slot) (s : Slot) (i : Nat) :
    generationAt (slots.push s) i =
      if i = slots.size then some s.header.generation else generationAt slots i := by
  simp only [generationAt, Array.getElem?_push]
  split <;> rfl

theorem occupantAt_set (slots : Array Slot) {j : Nat} (h : j < slots.size) (s : Slot) (i : Nat) :
    occupantAt (slots.set j s) i = if j = i then s.occupant else occupantAt slots i := by
  simp only [occupantAt, Array.getElem?_set]
  split <;> rfl

theorem generationAt_set (slots : Array Slot) {j : Nat} (h : j < slots.size) (s : Slot) (i : Nat) :
    generationAt (slots.set j s) i =
      if j = i then some s.header.generation else generationAt slots i := by
  simp only [generationAt, Array.getElem?_set]
  split <;> rfl

theorem markAt_set (slots : Array Slot) {j : Nat} (h : j < slots.size) (s : Slot) (i : Nat) :
    markAt (slots.set j s) i = if j = i then some s.header.mark else markAt slots i := by
  simp only [markAt, Array.getElem?_set]
  split <;> rfl

theorem occupantAt_modify_mark (slots : Array Slot) (j : Nat) (c : Mark) (i : Nat) :
    occupantAt (slots.modify j (·.withMark c)) i = occupantAt slots i := by
  simp only [occupantAt, Array.getElem?_modify]
  split
  · cases slots[i]? <;> rfl
  · rfl

theorem generationAt_modify_mark (slots : Array Slot) (j : Nat) (c : Mark) (i : Nat) :
    generationAt (slots.modify j (·.withMark c)) i = generationAt slots i := by
  simp only [generationAt, Array.getElem?_modify]
  split
  · cases slots[i]? <;> rfl
  · rfl

theorem markAt_modify_mark (slots : Array Slot) (j : Nat) (c : Mark) (i : Nat) :
    markAt (slots.modify j (·.withMark c)) i =
      if j = i then (markAt slots i).map fun _ => c else markAt slots i := by
  simp only [markAt, Array.getElem?_modify]
  split
  · cases slots[i]? <;> rfl
  · rfl

theorem markAt_eq_black {slots : Array Slot} {i : Nat} :
    markAt slots i = some .black ↔ slots[i]?.map isBlack = some true := by
  cases slot : slots[i]? <;> simp [markAt, slot, isBlack]

theorem lt_size_of_occupantAt {slots : Array Slot} {i n : Nat} (h : occupantAt slots i = some n) :
    i < slots.size := by
  obtain ⟨s, found, _⟩ := Option.bind_eq_some_iff.mp h
  exact (Array.getElem?_eq_some_iff.mp found).1

theorem generationAt_eq_none {slots : Array Slot} {i : Nat} :
    generationAt slots i = none ↔ slots.size ≤ i := by
  simp [generationAt]

end Slot

namespace Heap

variable {Obj : Type}

theorem number?_eq_numberAt (h : Heap Obj) (x : Handle) : h.number? x = Slot.numberAt h.slots x := by
  unfold number? Slot.numberAt Slot.generationAt Slot.occupantAt
  cases h.slots[x.index.toNat]? with
  | none => rfl
  | some s => simp

theorem alive_iff {h : Heap Obj} {x : Handle} : h.alive x = true ↔ ∃ n, h.number? x = some n :=
  Option.isSome_iff_exists

theorem alive_of_get? {h : Heap Obj} {x : Handle} {object : Obj}
    (found : h.get? x = some object) : h.alive x = true := by
  obtain ⟨n, number, _⟩ := Option.bind_eq_some_iff.mp found
  exact alive_iff.mpr ⟨n, number⟩

def Live (h : Heap Obj) (n : Nat) : Prop := ∃ i, Slot.occupantAt h.slots i = some n

theorem live_of_number? {h : Heap Obj} {x : Handle} {n : Nat} (number : h.number? x = some n) :
    h.Live n := by
  rw [number?_eq_numberAt] at number
  exact ⟨_, (Slot.numberAt_eq_some.mp number).2⟩

def Vacant (h : Heap Obj) (i : Nat) : Prop := i < h.slots.size ∧ Slot.occupantAt h.slots i = none

theorem vacant_iff {h : Heap Obj} {i : Nat} :
    h.Vacant i ↔
      (Slot.generationAt h.slots i).isSome = true ∧ Slot.occupantAt h.slots i = none := by
  simp [Vacant, Slot.generationAt]

end Heap

end HostBridge
