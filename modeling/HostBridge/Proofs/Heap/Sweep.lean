import HostBridge.Proofs.Heap.Marking
/-!
# What sweeping takes

Sweeping empties the white slots with an occupant, ends their generation and frees them; all other
slots stay as they are. After a marking these are the slots of the unreachable objects.
-/

namespace HostBridge.Heap

open Slot

variable {Obj : Type}

theorem mem_garbage {slots : Array Slot} {i : Nat} :
    i ∈ garbage slots ↔ (∃ n, occupantAt slots i = some n) ∧ markAt slots i = some .white := by
  simp only [garbage, List.mem_filter, List.mem_range, occupantAt, markAt]
  by_cases inside : i < slots.size
  · simp [inside, isGarbage, occupied, isWhite, Option.isSome_iff_exists]
  · simp [inside]

theorem nodup_garbage (slots : Array Slot) : (garbage slots).Nodup :=
  List.nodup_range.filter _

theorem getElem?_sweep {slots : Array Slot} {i : Nat} {s : Slot} (slot : slots[i]? = some s) :
    (slots.map sweepSlot)[i]? =
      if i ∈ garbage slots then some ⟨s.header.bump, none⟩ else some s := by
  have same : i ∈ garbage slots ↔ isGarbage s = true := by
    rw [mem_garbage]
    simp [occupantAt, markAt, slot, isGarbage, occupied, isWhite, Option.isSome_iff_exists]
  rw [Array.getElem?_map, slot, Option.map_some, sweepSlot]
  by_cases swept : isGarbage s = true
  · rw [if_pos swept, if_pos (same.mpr swept)]
  · rw [if_neg swept, if_neg fun member => swept (same.mp member)]

variable {h : Heap Obj} {m : Marking}

theorem sweep_occupantAt (same : Marking.SameObjects h m) (i : Nat) :
    occupantAt (h.sweep m).slots i =
      if i ∈ garbage m.slots then none else occupantAt h.slots i := by
  rw [← (same i).1]
  cases slot : m.slots[i]? with
  | none => simp [sweep, occupantAt, slot]
  | some s =>
    simp only [sweep, occupantAt, getElem?_sweep slot, slot, Option.bind_some]
    split <;> rfl

theorem sweep_generationAt (same : Marking.SameObjects h m) (i : Nat) :
    generationAt (h.sweep m).slots i =
      if i ∈ garbage m.slots then (generationAt h.slots i).map (· + 1)
      else generationAt h.slots i := by
  rw [← (same i).2]
  cases slot : m.slots[i]? with
  | none => simp [sweep, generationAt, slot]
  | some s =>
    simp only [sweep, generationAt, getElem?_sweep slot, slot, Option.map_some]
    split <;> rfl

/-- A handle names what it named before, unless its slot is swept; then it names nothing. -/
theorem sweep_number? (same : Marking.SameObjects h m) (x : Handle) :
    (h.sweep m).number? x = if x.index.toNat ∈ garbage m.slots then none else h.number? x := by
  rw [number?_eq_numberAt, number?_eq_numberAt, numberAt, numberAt, sweep_occupantAt same,
    sweep_generationAt same]
  split
  · simp
  · rfl

theorem sweep_doomed (same : Marking.SameObjects h m) :
    (h.sweep m).doomed = (garbage m.slots).filterMap (occupantAt h.slots) := by
  have pointwise : (fun i => m.slots[i]?.bind occupant) = occupantAt h.slots :=
    funext fun i => (same i).1
  simp only [sweep, pointwise]

theorem live_sweep (same : Marking.SameObjects h m) {n : Nat} :
    (h.sweep m).Live n ↔ ∃ i, i ∉ garbage m.slots ∧ occupantAt h.slots i = some n := by
  constructor
  · intro live
    rcases live with ⟨i, occupant⟩
    rw [sweep_occupantAt same] at occupant
    split at occupant
    · exact absurd occupant (by simp)
    · rename_i kept
      exact ⟨i, kept, occupant⟩
  · intro spared
    rcases spared with ⟨i, kept, occupant⟩
    exact ⟨i, by rw [sweep_occupantAt same, if_neg kept, occupant]⟩

variable [Traced Obj]

theorem mem_garbage_mark {roots : List Handle} {x : Handle} (alive : h.alive x = true) :
    x.index.toNat ∈ garbage (h.mark roots).slots ↔ ¬ h.Reachable roots x := by
  rw [mem_garbage, mark_white_iff h roots alive]
  constructor
  · exact And.right
  · intro unreached
    obtain ⟨n, number⟩ := alive_iff.mp alive
    rw [← (mark_triColour h roots).same.number?] at number
    exact ⟨⟨n, (numberAt_eq_some.mp number).2⟩, unreached⟩

/-- A handle survives exactly if it was alive and is reachable. -/
theorem sweep_mark_alive {roots : List Handle} {x : Handle} :
    (h.sweep (h.mark roots)).alive x = true ↔ h.alive x = true ∧ h.Reachable roots x := by
  rw [alive, sweep_number? (mark_triColour h roots).same]
  by_cases living : h.alive x = true
  · by_cases reached : h.Reachable roots x
    · have kept := fun swept => (mem_garbage_mark living).mp swept reached
      rw [if_neg kept]
      exact ⟨fun _ => ⟨living, reached⟩, fun _ => living⟩
    · rw [if_pos ((mem_garbage_mark living).mpr reached)]
      simp [reached]
  · have dead : h.number? x = none := by simpa [alive] using living
    rw [dead]
    simp [living]

end HostBridge.Heap
