import HostBridge.Proofs.Heap.Effect
import Mathlib.Algebra.Group.Nat.Defs
/-!
# The ledger of a heap

Beside the heap stand the number of times each slot was reclaimed and the list of what was put into
the heap. The generation of a slot is its number of reclamations, so a handle that was issued is
alive only until its slot is reclaimed; and the objects are numbered in the order in which their
handles were issued.
-/

namespace HostBridge

open Slot

variable {Obj : Type}

namespace Deposit

def handle : Deposit Obj → Handle
  | allocated x _ => x
  | written x _ => x

def object : Deposit Obj → Obj
  | allocated _ object => object
  | written _ object => object

def issued? : Deposit Obj → Option Handle
  | allocated x _ => some x
  | written .. => none

end Deposit

def issued (deposits : List (Deposit Obj)) : List Handle :=
  deposits.reverse.filterMap Deposit.issued?

def content (deposits : List (Deposit Obj)) (x : Handle) : Option Obj :=
  (deposits.find? (·.handle = x)).map Deposit.object

theorem issued_allocated (x : Handle) (object : Obj) (deposits : List (Deposit Obj)) :
    issued (.allocated x object :: deposits) = issued deposits ++ [x] := by
  simp [issued, Deposit.issued?]

theorem issued_written (x : Handle) (object : Obj) (deposits : List (Deposit Obj)) :
    issued (.written x object :: deposits) = issued deposits := by
  simp [issued, Deposit.issued?]

theorem content_cons (d : Deposit Obj) (deposits : List (Deposit Obj)) (x : Handle) :
    content (d :: deposits) x = if d.handle = x then some d.object else content deposits x := by
  simp only [content, List.find?_cons]
  by_cases here : d.handle = x <;> simp [here]

namespace Heap

structure Ledger (h : Heap Obj) (reclaims : Nat → Nat) (deposits : List (Deposit Obj)) : Prop where
  sound : h.Sound
  generation : ∀ i g, generationAt h.slots i = some g → g = UInt32.ofNat (reclaims i)
  unborn : ∀ i, h.slots.size ≤ i → reclaims i = 0
  past : ∀ x ∈ issued deposits, x.generation.toNat < reclaims x.index.toNat ∨
    x.generation.toNat = reclaims x.index.toNat ∧ h.alive x = true
  numbered : ∀ x n, h.number? x = some n → (issued deposits)[n]? = some x
  counted : (issued deposits).length = h.objects.size
  nodup_issued : (issued deposits).Nodup
  contents : ∀ x, h.alive x = true → h.get? x = content deposits x

variable {h h' : Heap Obj} {reclaims : Nat → Nat} {deposits : List (Deposit Obj)}

def countReclaims (h h' : Heap Obj) (reclaims : Nat → Nat) (i : Nat) : Nat :=
  reclaims i + if h.empties h' i then 1 else 0

theorem countReclaims_same {i : Nat} (same : h.SameSlot h' i) :
    h.countReclaims h' reclaims i = reclaims i := by
  simp [countReclaims, same.empties]

theorem countReclaims_reclaimed {i : Nat} (reclaimed : h.ReclaimedSlot h' i) :
    h.countReclaims h' reclaims i = reclaims i + 1 := by
  simp [countReclaims, reclaimed.empties]

theorem Ledger.upkeep [Traced Obj] (ledger : h.Ledger reclaims deposits) (upkeep : h.Upkeep h') :
    h'.Ledger (h.countReclaims h' reclaims) deposits := by
  refine ⟨ledger.sound.upkeep upkeep, ?_, ?_, ?_, ?_, ?_, ledger.nodup_issued, ?_⟩
  · intro i g generation
    rcases upkeep.slot i with same | reclaimed
    · rw [countReclaims_same same]
      exact ledger.generation i g (same.2 ▸ generation)
    · rw [reclaimed.2.2] at generation
      obtain ⟨g', before, rfl⟩ := Option.map_eq_some_iff.mp generation
      rw [countReclaims_reclaimed reclaimed, ledger.generation i g' before, UInt32.ofNat_add]
      rfl
  · intro i outside
    rcases upkeep.slot i with same | reclaimed
    · rw [countReclaims_same same]
      refine ledger.unborn i ?_
      rwa [← generationAt_eq_none, ← same.2, generationAt_eq_none]
    · rw [← generationAt_eq_none, reclaimed.2.2, Option.map_eq_none_iff,
        generationAt_eq_none] at outside
      have occupied := reclaimed.1
      simp [occupantAt, outside] at occupied
  · intro x member
    rcases upkeep.slot x.index.toNat with same | reclaimed
    · rw [countReclaims_same same, Heap.alive, same.number?]
      exact ledger.past x member
    · rw [countReclaims_reclaimed reclaimed]
      rcases ledger.past x member with before | ⟨now, _⟩ <;> omega
  · intro x n number
    rw [upkeep.number?_of_alive (alive_iff.mpr ⟨n, number⟩)] at number
    exact ledger.numbered x n number
  · rw [upkeep.size_objects, ledger.counted]
  · intro x alive
    have before : h.alive x = true := by
      rwa [Heap.alive, ← upkeep.number?_of_alive alive]
    rw [upkeep.get? ledger.sound alive, ledger.contents x before]

namespace Placed

variable {object : Obj} {x : Handle} {i : Nat}

theorem number? (placed : h.Placed object x h' i) (y : Handle) :
    h'.number? y =
      if y.index.toNat = i then if y.generation = x.generation then some h.objects.size else none
      else h.number? y := by
  rw [number?_eq_numberAt, number?_eq_numberAt, numberAt, numberAt, placed.occupants,
    placed.generations]
  by_cases here : i = y.index.toNat
  · simp [here, eq_comm]
  · simp [here, Ne.symm here]

theorem not_alive (placed : h.Placed object x h' i) {y : Handle} (alive : h.alive y = true) :
    y.index.toNat ≠ i := by
  intro same
  subst same
  obtain ⟨n, number⟩ := alive_iff.mp alive
  rw [number?_eq_numberAt] at number
  exact absurd (placed.vacant.symm.trans (numberAt_eq_some.mp number).2) (by simp)

theorem keeps_number? (placed : h.Placed object x h' i) {y : Handle} (alive : h.alive y = true) :
    h'.number? y = h.number? y := by
  rw [placed.number?, if_neg (placed.not_alive alive)]

theorem keeps_get? (placed : h.Placed object x h' i) (sound : h.Sound) {y : Handle}
    (alive : h.alive y = true) : h'.get? y = h.get? y := by
  obtain ⟨n, number⟩ := alive_iff.mp alive
  have old : n ≠ h.objects.size :=
    Nat.ne_of_lt (sound.lt_objects (live_of_number? number))
  rw [Heap.get?, Heap.get?, placed.keeps_number? alive, number]
  simp only [Option.bind_some]
  rw [placed.object?, if_neg old]

theorem empties (placed : h.Placed object x h' i) (j : Nat) : h.empties h' j = false := by
  rw [Heap.empties, placed.occupants]
  split
  · simp
  · cases occupantAt h.slots j <;> rfl

theorem index_eq (placed : h.Placed object x h' i) (narrow : h'.slots.size ≤ 2 ^ 32) :
    x.index.toNat = i := by
  have inside : i < h'.slots.size := by
    refine lt_size_of_occupantAt (n := h.objects.size) ?_
    rw [placed.occupants, if_pos rfl]
  rw [placed.index, UInt32.toNat_ofNat_of_lt']
  exact Nat.lt_of_lt_of_le inside narrow

end Placed

section Allocate

variable {object : Obj} {x : Handle} {i : Nat} (placed : h.Placed object x h' i)

include placed

theorem Placed.number?_new (index : x.index.toNat = i) : h'.number? x = some h.objects.size := by
  rw [placed.number?, if_pos index, if_pos rfl]

theorem Placed.alive_cases (index : x.index.toNat = i) {y : Handle} (alive : h'.alive y = true) :
    y = x ∨ h.alive y = true := by
  rw [Heap.alive, placed.number?] at alive
  split at alive
  · rename_i here
    split at alive
    · rename_i same
      have at_x : y.index = x.index := UInt32.toNat_inj.mp (here.trans index.symm)
      cases x
      cases y
      simp_all
    · exact absurd alive (by simp)
  · exact Or.inr alive

theorem Ledger.generation_new (ledger : h.Ledger reclaims deposits) :
    x.generation = UInt32.ofNat (reclaims i) := by
  rcases placed.generation with reused | ⟨new, zero⟩
  · exact ledger.generation i _ reused
  · rw [zero, ledger.unborn i (Nat.le_of_eq new)]
    rfl

theorem Ledger.not_issued (ledger : h.Ledger reclaims deposits) (index : x.index.toNat = i)
    (few : reclaims i < 2 ^ 32) : x ∉ issued deposits := by
  intro member
  rcases ledger.past x member with before | ⟨_, alive⟩
  · rw [ledger.generation_new placed, index, UInt32.toNat_ofNat_of_lt' few] at before
    exact Nat.lt_irrefl _ before
  · exact placed.not_alive alive index

theorem Ledger.past_allocate (ledger : h.Ledger reclaims deposits) (index : x.index.toNat = i)
    (few : reclaims i < 2 ^ 32) {y : Handle} (member : y ∈ issued deposits ++ [x]) :
    y.generation.toNat < reclaims y.index.toNat ∨
      y.generation.toNat = reclaims y.index.toNat ∧ h'.alive y = true := by
  rcases List.mem_append.mp member with old | new
  · rcases ledger.past y old with before | ⟨now, alive⟩
    · exact Or.inl before
    · refine Or.inr ⟨now, ?_⟩
      rw [Heap.alive, placed.keeps_number? alive]
      exact alive
  · rw [List.mem_singleton.mp new]
    refine Or.inr ⟨?_, alive_iff.mpr ⟨_, placed.number?_new index⟩⟩
    rw [ledger.generation_new placed, index, UInt32.toNat_ofNat_of_lt' few]

theorem Ledger.numbered_allocate (ledger : h.Ledger reclaims deposits) (index : x.index.toNat = i)
    {y : Handle} {n : Nat} (named : h'.number? y = some n) :
    (issued deposits ++ [x])[n]? = some y := by
  rcases placed.alive_cases index (alive_iff.mpr ⟨n, named⟩) with rfl | alive
  · obtain rfl := Option.some.inj ((placed.number?_new index).symm.trans named)
    rw [← ledger.counted, List.getElem?_concat_length]
  · rw [placed.keeps_number? alive] at named
    have old := ledger.sound.lt_objects (live_of_number? named)
    rw [List.getElem?_append_left (by rwa [ledger.counted])]
    exact ledger.numbered y n named

theorem Ledger.contents_allocate (ledger : h.Ledger reclaims deposits) (index : x.index.toNat = i)
    {y : Handle} (alive : h'.alive y = true) :
    h'.get? y = content (.allocated x object :: deposits) y := by
  rw [content_cons]
  rcases placed.alive_cases index alive with rfl | before
  · simp only [Deposit.handle, Deposit.object, if_pos]
    rw [Heap.get?, placed.number?_new index, Option.bind_some, placed.object?, if_pos rfl]
  · have other : x ≠ y := by
      intro same
      subst same
      exact placed.not_alive before index
    rw [placed.keeps_get? ledger.sound before, ledger.contents y before]
    simp [Deposit.handle, other]

theorem Ledger.allocate (ledger : h.Ledger reclaims deposits) (narrow : h'.slots.size ≤ 2 ^ 32)
    (few : ∀ i, reclaims i < 2 ^ 32) :
    h'.Ledger reclaims (.allocated x object :: deposits) := by
  have index := placed.index_eq narrow
  constructor
  · exact placed.sound ledger.sound
  · intro j g at_j
    rw [placed.generations] at at_j
    split at at_j
    · rename_i here
      rw [← Option.some.inj at_j, ledger.generation_new placed, here]
    · exact ledger.generation j g at_j
  · intro j outside
    apply ledger.unborn j
    rw [← generationAt_eq_none] at outside ⊢
    rw [placed.generations] at outside
    split at outside
    · exact absurd outside (by simp)
    · exact outside
  · intro y member
    rw [issued_allocated] at member
    exact ledger.past_allocate placed index (few i) member
  · intro y n named
    rw [issued_allocated]
    exact ledger.numbered_allocate placed index named
  · rw [issued_allocated, List.length_append, ledger.counted, placed.objects, Array.size_push]
    rfl
  · rw [issued_allocated, List.nodup_append]
    refine ⟨ledger.nodup_issued, by simp, ?_⟩
    intro y member z last same
    subst same
    rw [List.mem_singleton.mp last] at member
    exact ledger.not_issued placed index (few i) member
  · intro y alive
    exact ledger.contents_allocate placed index alive

end Allocate

theorem Ledger.write (ledger : h.Ledger reclaims deposits) {x : Handle} (alive : h.alive x = true)
    (object : Obj) : (h.write x object).Ledger reclaims (.written x object :: deposits) := by
  obtain ⟨n, number⟩ := alive_iff.mp alive
  have slots : (h.write x object).slots = h.slots := by simp only [Heap.write, number]
  have numbers : ∀ y, (h.write x object).number? y = h.number? y := fun y =>
    SameSlot.number? (.of_eq slots _)
  refine ⟨ledger.sound.write alive object, ?_, ?_, ?_, ?_, ?_, ?_, ?_⟩
  · rw [slots]
    exact ledger.generation
  · rw [slots]
    exact ledger.unborn
  · intro y member
    rw [issued_written] at member
    rw [Heap.alive, numbers]
    exact ledger.past y member
  · intro y k named
    rw [numbers] at named
    rw [issued_written]
    exact ledger.numbered y k named
  · rw [issued_written, ledger.counted]
    simp only [Heap.write, number, Array.size_setIfInBounds]
  · rw [issued_written]
    exact ledger.nodup_issued
  · intro y living
    rw [Heap.alive, numbers] at living
    obtain ⟨k, named⟩ := alive_iff.mp living
    rw [content_cons, Heap.get?, numbers, named, Option.bind_some,
      object?_write number (ledger.sound.lt_objects (live_of_number? number))]
    by_cases same : x = y
    · obtain rfl := Option.some.inj (number.symm.trans (same ▸ named))
      simp [Deposit.handle, Deposit.object, same]
    · have other : n ≠ k := by
        intro same
        subst same
        have at_x := ledger.numbered x n number
        rw [ledger.numbered y n named] at at_x
        exact same (Option.some.inj at_x).symm
      rw [if_neg other, if_neg (by exact same), ← ledger.contents y living, Heap.get?, named,
        Option.bind_some]

theorem Ledger.takes (ledger : h.Ledger reclaims deposits) {d : Deposit Obj} (takes : h.Takes d h')
    (narrow : h'.slots.size ≤ 2 ^ 32) (few : ∀ i, reclaims i < 2 ^ 32) :
    h'.Ledger (h.countReclaims h' reclaims) (d :: deposits) := by
  cases takes with
  | allocated made =>
    obtain ⟨i, placed⟩ := ledger.sound.allocate made
    have same : h.countReclaims h' reclaims = reclaims := by
      funext j
      simp [countReclaims, placed.empties]
    rw [same]
    exact ledger.allocate placed narrow few
  | @written x object alive =>
    obtain ⟨n, number⟩ := alive_iff.mp alive
    have slots : (h.write x object).slots = h.slots := by simp only [Heap.write, number]
    have same : h.countReclaims (h.write x object) reclaims = reclaims := by
      funext j
      exact countReclaims_same (.of_eq slots j)
    rw [same]
    exact ledger.write alive object

namespace Ledger

variable {reclaims' : Nat → Nat} {deposits' : List (Deposit Obj)}

end Ledger

end Heap

end HostBridge
