import HostBridge.Proofs.Heap.Sound
import Mathlib.Data.Set.Card
/-!
# How many objects are marked and swept

An object is in one slot only, so to count the slots of a kind is to count their objects.
-/

namespace HostBridge.Heap

open Slot

variable {Obj : Type} {h : Heap Obj}

theorem range_map_getElem? {α : Type} (xs : List α) :
    (List.range xs.length).map (xs[·]?) = xs.map some := by
  apply List.ext_getElem
  · simp
  · intro i _ _
    simp

theorem length_filter_range (slots : Array Slot) (p : Slot → Bool) :
    ((List.range slots.size).filter fun i => (slots[i]?.map p).getD false).length =
      slots.countP p := by
  rw [← List.countP_eq_length_filter, ← Array.countP_toList, ← Array.length_toList]
  calc (List.range slots.toList.length).countP (fun i => (slots[i]?.map p).getD false)
      = ((List.range slots.toList.length).map (slots.toList[·]?)).countP
          fun s => (s.map p).getD false := by
        rw [List.countP_map]
        simp only [Function.comp_def, Array.getElem?_toList]
    _ = slots.toList.countP p := by
        rw [range_map_getElem?, List.countP_map]
        rfl

theorem length_garbage (slots : Array Slot) : (garbage slots).length = slots.countP isGarbage :=
  length_filter_range slots isGarbage

theorem countP_eq_ncard (slots : Array Slot) (p : Slot → Bool) :
    slots.countP p = {i : Nat | slots[i]?.map p = some true}.ncard := by
  have listed : {i : Nat | slots[i]?.map p = some true} =
      (((List.range slots.size).filter fun i => (slots[i]?.map p).getD false).toFinset :
        Set Nat) := by
    ext i
    by_cases inside : i < slots.size
    · simp [inside]
    · simp [inside]
  rw [← length_filter_range, listed, Set.ncard_coe_finset,
    List.toFinset_card_of_nodup (List.nodup_range.filter _)]

/-- The number of slots of a kind is the number of objects in them, if none of them is empty. -/
theorem Sound.countP_slots (sound : h.Sound) {slots : Array Slot} {p : Slot → Bool}
    (occupied : ∀ i s, slots[i]? = some s → p s = true → (occupantAt h.slots i).isSome = true) :
    slots.countP p =
      {n | ∃ i, slots[i]?.map p = some true ∧ occupantAt h.slots i = some n}.ncard := by
  have has : ∀ i, slots[i]?.map p = some true → (occupantAt h.slots i).isSome = true := by
    intro i kind
    obtain ⟨s, slot, holds⟩ := Option.map_eq_some_iff.mp kind
    exact occupied i s slot holds
  rw [countP_eq_ncard]
  refine Set.ncard_congr (fun i kind => (occupantAt h.slots i).get (has i kind)) ?_ ?_ ?_
  · intro i kind
    exact ⟨i, kind, (Option.some_get _).symm⟩
  · intro i j at_i at_j same
    refine sound.one_slot i j _ (Option.some_get (has i at_i)).symm ?_
    rw [same, Option.some_get]
  · intro n counted
    rcases counted with ⟨i, kind, occupant⟩
    exact ⟨i, kind, Option.get_of_eq_some _ occupant⟩

theorem Sound.liveCount (sound : h.Sound) : h.liveCount = {n | h.Live n}.ncard := by
  have occupied : ∀ i s, h.slots[i]? = some s → s.occupied = true →
      (occupantAt h.slots i).isSome = true := by
    intro i s slot kind
    simpa [occupantAt, slot, Slot.occupied] using kind
  rw [Heap.liveCount, sound.countP_slots occupied]
  congr 1
  ext n
  constructor
  · intro occupied
    rcases occupied with ⟨i, _, occupant⟩
    exact ⟨i, occupant⟩
  · intro live
    rcases live with ⟨i, occupant⟩
    obtain ⟨s, slot, here⟩ := Option.bind_eq_some_iff.mp occupant
    exact ⟨i, by simp [slot, Slot.occupied, here], occupant⟩

variable [Traced Obj] {visited : List Handle}

def Survives (h : Heap Obj) (visited : List Handle) (n : Nat) : Prop :=
  ∃ x, h.number? x = some n ∧ h.Reachable visited x

theorem Sound.black_iff (sound : h.Sound) {i n : Nat} (occupant : occupantAt h.slots i = some n) :
    markAt (h.mark visited).slots i = some .black ↔ h.Survives visited n := by
  constructor
  · intro black
    obtain ⟨x, here, alive, reached⟩ :=
      (mark_triColour h visited).grounded i .black black (by simp)
    obtain ⟨k, number⟩ := alive_iff.mp alive
    have same := number
    rw [number?_eq_numberAt] at same
    have at_i := (numberAt_eq_some.mp same).2
    rw [here, occupant] at at_i
    exact ⟨x, by rw [number, at_i], reached⟩
  · intro survives
    rcases survives with ⟨x, number, reached⟩
    have black := (mark_black_iff h visited (alive_iff.mpr ⟨n, number⟩)).mpr reached
    rw [number?_eq_numberAt] at number
    rwa [sound.one_slot _ _ n (numberAt_eq_some.mp number).2 occupant] at black

theorem Sound.white_iff (sound : h.Sound) {i n : Nat} (occupant : occupantAt h.slots i = some n) :
    markAt (h.mark visited).slots i = some .white ↔ ¬ h.Survives visited n := by
  rw [← sound.black_iff occupant]
  rw [← ((mark_triColour h visited).same i).1] at occupant
  have inside := lt_size_of_occupantAt occupant
  have not_gray := mark_not_gray h visited i
  rw [markAt, Array.getElem?_eq_getElem inside, Option.map_some] at not_gray ⊢
  cases colour : (h.mark visited).slots[i].header.mark with
  | white => simp
  | gray => exact absurd (congrArg some colour) not_gray
  | black => simp

/-- The handles of the live objects that are reachable. Each of these objects has one. -/
def liveReachable (h : Heap Obj) (visited : List Handle) : Set Handle :=
  {x | h.alive x = true ∧ h.Reachable visited x}

/-- Marking counts each live reachable object once. -/
theorem mark_marked : (h.mark visited).marked = (h.liveReachable visited).ncard := by
  have one_handle : Set.InjOn (fun x : Handle => x.index.toNat) (h.liveReachable visited) := by
    intro x reached y reached' here
    exact eq_of_alive reached'.1 reached.1 here.symm
  rw [(mark_triColour h visited).counted, countP_eq_ncard, ← one_handle.ncard_image]
  congr 1
  ext i
  rw [Set.mem_ofPred_eq, ← markAt_eq_black]
  constructor
  · intro black
    obtain ⟨x, here, reached⟩ := (mark_triColour h visited).grounded i .black black (by simp)
    exact ⟨x, reached, here⟩
  · intro handled
    rcases handled with ⟨x, ⟨alive, reached⟩, rfl⟩
    exact (mark_black_iff h visited alive).mpr reached

theorem Sound.marked (sound : h.Sound) :
    (h.mark visited).marked = {n | h.Survives visited n}.ncard := by
  rw [mark_marked]
  refine Set.ncard_congr (fun x reached => (h.number? x).get reached.1) ?_ ?_ ?_
  · intro x reached
    exact ⟨x, (Option.some_get _).symm, reached.2⟩
  · intro x y reached reached' same
    refine sound.eq_of_number? (Option.some_get reached.1).symm ?_
    rw [same]
    exact (Option.some_get reached'.1).symm
  · intro n survives
    rcases survives with ⟨x, number, reached⟩
    exact ⟨x, ⟨alive_iff.mpr ⟨n, number⟩, reached⟩, Option.get_of_eq_some _ number⟩

theorem Sound.reclaimed (sound : h.Sound) :
    (garbage (h.mark visited).slots).length =
      {n | h.Live n ∧ ¬ h.Survives visited n}.ncard := by
  have kind_iff : ∀ i, (h.mark visited).slots[i]?.map isGarbage = some true ↔
      i ∈ garbage (h.mark visited).slots := by
    intro i
    rw [mem_garbage]
    cases slot : (h.mark visited).slots[i]? <;>
      simp [markAt, occupantAt, slot, isGarbage, Slot.occupied, isWhite, Option.isSome_iff_exists]
  rw [length_garbage, sound.countP_slots]
  · congr 1
    ext n
    constructor
    · intro counted
      rcases counted with ⟨i, kind, occupant⟩
      have white := (mem_garbage.mp ((kind_iff i).mp kind)).2
      exact ⟨⟨i, occupant⟩, (sound.white_iff occupant).mp white⟩
    · intro lost
      rcases lost with ⟨⟨i, occupant⟩, unreached⟩
      refine ⟨i, (kind_iff i).mpr (mem_garbage.mpr ⟨⟨n, ?_⟩, ?_⟩), occupant⟩
      · rw [((mark_triColour h visited).same i).1, occupant]
      · exact (sound.white_iff occupant).mpr unreached
  · intro i s slot kind
    obtain ⟨⟨n, occupant⟩, _⟩ := mem_garbage.mp
      ((kind_iff i).mp (by rw [slot, Option.map_some, kind]))
    rw [((mark_triColour h visited).same i).1] at occupant
    simp [occupant]

theorem Sound.live_sweep_iff (sound : h.Sound) {n : Nat} :
    (h.sweep (h.mark visited)).Live n ↔ h.Survives visited n := by
  rw [live_sweep (mark_triColour h visited).same]
  constructor
  · intro spared
    rcases spared with ⟨i, kept, occupant⟩
    refine Classical.byContradiction fun unreached => kept (mem_garbage.mpr ⟨⟨n, ?_⟩, ?_⟩)
    · rw [((mark_triColour h visited).same i).1, occupant]
    · exact (sound.white_iff occupant).mpr unreached
  · intro survives
    rcases survives with ⟨x, number, reached⟩
    have alive := alive_iff.mpr ⟨n, number⟩
    rw [number?_eq_numberAt] at number
    refine ⟨_, fun swept => ?_, (numberAt_eq_some.mp number).2⟩
    exact (mem_garbage_mark alive).mp swept reached

end HostBridge.Heap
