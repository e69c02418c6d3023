import HostBridge.Proofs.Heap.Sound
/-!
# What upkeep does to one slot

Upkeep leaves a slot as it is or reclaims it: the occupant goes and the generation moves on. It makes
no objects and changes none that is in a slot.
-/

namespace HostBridge.Heap

open Slot

variable {Obj : Type} {h h' : Heap Obj}

def empties (h h' : Heap Obj) (i : Nat) : Bool :=
  (occupantAt h.slots i).isSome && (occupantAt h'.slots i).isNone

def SameSlot (h h' : Heap Obj) (i : Nat) : Prop :=
  occupantAt h'.slots i = occupantAt h.slots i ∧ generationAt h'.slots i = generationAt h.slots i

def ReclaimedSlot (h h' : Heap Obj) (i : Nat) : Prop :=
  (occupantAt h.slots i).isSome = true ∧ occupantAt h'.slots i = none ∧
    generationAt h'.slots i = (generationAt h.slots i).map (· + 1)

theorem SameSlot.of_eq (slots : h'.slots = h.slots) (i : Nat) : h.SameSlot h' i := by
  rw [SameSlot, slots]
  exact ⟨rfl, rfl⟩

theorem SameSlot.number? {x : Handle} (same : h.SameSlot h' x.index.toNat) :
    h'.number? x = h.number? x := by
  rw [number?_eq_numberAt, number?_eq_numberAt, numberAt, numberAt, same.1, same.2]

theorem SameSlot.empties {i : Nat} (same : h.SameSlot h' i) : h.empties h' i = false := by
  rw [Heap.empties, same.1]
  cases occupantAt h.slots i <;> rfl

theorem ReclaimedSlot.number? {x : Handle} (reclaimed : h.ReclaimedSlot h' x.index.toNat) :
    h'.number? x = none := by
  rw [number?_eq_numberAt, numberAt, reclaimed.2.1]
  simp

theorem ReclaimedSlot.empties {i : Nat} (reclaimed : h.ReclaimedSlot h' i) :
    h.empties h' i = true := by
  rw [Heap.empties, reclaimed.1, reclaimed.2.1]
  rfl

theorem slots_eq_of_visitRoots (h : Heap Obj) (xs : List Handle) :
    (h.visitRoots xs).slots = h.slots := by
  rw [visitRoots_eq]

theorem objects_eq_of_visitRoots (h : Heap Obj) (xs : List Handle) :
    (h.visitRoots xs).objects = h.objects := by
  rw [visitRoots_eq]

theorem slots_eq_of_conclude (h : Heap Obj) : h.conclude.slots = h.slots := by
  rw [conclude_eq]

theorem objects_eq_of_conclude (h : Heap Obj) : h.conclude.objects = h.objects := by
  rw [conclude_eq]

section Upkeep

variable [Traced Obj]

theorem Upkeep.slots_or_sweep (upkeep : h.Upkeep h') :
    h'.slots = h.slots ∨
      ∃ visited, h.phase = .tracing visited ∧ h' = h.sweep (h.mark visited.reverse) := by
  cases upkeep with
  | sweep =>
    unfold markAndSweep
    split
    · rename_i visited phase
      exact Or.inr ⟨visited, phase, rfl⟩
    · exact Or.inl rfl
  | visit => exact Or.inl (slots_eq_of_visitRoots h _)
  | conclude => exact Or.inl (slots_eq_of_conclude h)
  | retain took => exact Or.inl (by rw [(retain_eq took).2])
  | letGo first | letGoLast first =>
    have same := (letGo_eq first).2
    rw [same]
    exact Or.inl rfl
  | same | threshold | release | releaseLast | «begin» => exact Or.inl rfl

theorem sweep_slot (h : Heap Obj) (roots : List Handle) (i : Nat) :
    h.SameSlot (h.sweep (h.mark roots)) i ∨ h.ReclaimedSlot (h.sweep (h.mark roots)) i := by
  have same := (mark_triColour h roots).same
  by_cases swept : i ∈ garbage (h.mark roots).slots
  · have occupied := (mem_garbage.mp swept).1
    rw [(same i).1, ← Option.isSome_iff_exists] at occupied
    refine Or.inr ⟨occupied, ?_, ?_⟩
    · rw [sweep_occupantAt same, if_pos swept]
    · rw [sweep_generationAt same, if_pos swept]
  · refine Or.inl ⟨?_, ?_⟩
    · rw [sweep_occupantAt same, if_neg swept]
    · rw [sweep_generationAt same, if_neg swept]

theorem Upkeep.slot (upkeep : h.Upkeep h') (i : Nat) :
    h.SameSlot h' i ∨ h.ReclaimedSlot h' i := by
  rcases upkeep.slots_or_sweep with slots | ⟨visited, _, swept⟩
  · exact Or.inl (.of_eq slots i)
  · rw [swept]
    exact h.sweep_slot visited.reverse i

theorem Upkeep.number?_of_alive (upkeep : h.Upkeep h') {x : Handle} (alive : h'.alive x = true) :
    h'.number? x = h.number? x := by
  rcases upkeep.slot x.index.toNat with same | reclaimed
  · exact same.number?
  · rw [Heap.alive, reclaimed.number?] at alive
    exact absurd alive (by simp)

theorem Upkeep.objects_cases (upkeep : h.Upkeep h') :
    h'.objects = h.objects ∨ ∃ n, h'.objects = (h.drop n).objects := by
  cases upkeep with
  | visit => exact Or.inl (objects_eq_of_visitRoots h _)
  | sweep => exact Or.inl (by rw [markAndSweep_eq])
  | conclude => exact Or.inl (objects_eq_of_conclude h)
  | retain took => exact Or.inl (by rw [(retain_eq took).2])
  | letGo first => exact Or.inl (by rw [(letGo_eq first).2])
  | @letGoLast n _ first =>
    obtain ⟨_, same⟩ := letGo_eq first
    exact Or.inr ⟨n, by rw [same, drop, drop]⟩
  | @releaseLast n => exact Or.inr ⟨n, rfl⟩
  | same | threshold | release | «begin» => exact Or.inl rfl

theorem Upkeep.size_objects (upkeep : h.Upkeep h') : h'.objects.size = h.objects.size := by
  rcases upkeep.objects_cases with same | ⟨n, dropped⟩
  · rw [same]
  · rw [dropped, drop, Array.size_setIfInBounds]

theorem Upkeep.object? (sound : h.Sound) (upkeep : h.Upkeep h') {n : Nat} (live : h.Live n) :
    h'.object? n = h.object? n := by
  cases upkeep with
  | sweep => rw [markAndSweep_eq, Heap.object?, Heap.object?]
  | visit => rw [Heap.object?, objects_eq_of_visitRoots, Heap.object?]
  | conclude => rw [Heap.object?, objects_eq_of_conclude, Heap.object?]
  | retain took => rw [(retain_eq took).2, Heap.object?, Heap.object?]
  | letGo first =>
    obtain ⟨_, same⟩ := letGo_eq first
    rw [same, Heap.object?, Heap.object?]
  | @letGoLast k h' first last =>
    obtain ⟨doomed, same⟩ := letGo_eq first
    have other : k ≠ n := by
      intro same
      subst same
      exact (sound.doomed k (by simp [doomed])).2 live
    rw [object?_drop, if_neg other, same, Heap.object?, Heap.object?]
  | @releaseLast k last =>
    have other : k ≠ n := by
      intro same
      subst same
      exact not_live_of_unreferenced last live
    rw [object?_drop, if_neg other, Heap.release, Heap.object?, Heap.object?]
  | same | threshold | release | «begin» => rfl

end Upkeep

/-- A live handle keeps its object, and the object its content, as long as the handle lives. -/
theorem Upkeep.get? [Traced Obj] (sound : h.Sound) (upkeep : h.Upkeep h') {x : Handle}
    (alive : h'.alive x = true) : h'.get? x = h.get? x := by
  obtain ⟨n, number⟩ := alive_iff.mp alive
  have before : h.number? x = some n := by rw [← upkeep.number?_of_alive alive, number]
  rw [Heap.get?, Heap.get?, number, before]
  exact upkeep.object? sound (live_of_number? before)

end HostBridge.Heap
