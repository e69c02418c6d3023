import HostBridge.Proofs.Heap.Change
import HostBridge.Proofs.Heap.Sweep
import Mathlib.Data.List.Nodup
/-!
# The free list and the objects in the slots

`Sound` ties slots, free list and objects together. It holds of a new heap and is kept by everything
that can happen to a heap.
-/

namespace HostBridge

open Slot

namespace Heap

variable {Obj : Type}

structure Sound (h : Heap Obj) : Prop where
  nodup_free : h.free.Nodup
  mem_free : ∀ i, i ∈ h.free ↔ h.Vacant i
  one_slot : ∀ i j n, occupantAt h.slots i = some n → occupantAt h.slots j = some n → i = j
  content : ∀ n, h.Live n → ∃ object, h.object? n = some object
  doomed : ∀ n, n ∈ h.doomed → n < h.objects.size ∧ ¬ h.Live n

theorem Sound.eq_of_number? {h : Heap Obj} (sound : h.Sound) {x y : Handle} {n : Nat}
    (at_x : h.number? x = some n) (at_y : h.number? y = some n) : x = y := by
  rw [number?_eq_numberAt] at at_x at_y
  have here := sound.one_slot _ _ n (numberAt_eq_some.mp at_x).2 (numberAt_eq_some.mp at_y).2
  exact eq_of_numberAt at_x at_y here

theorem sound_withThreshold (threshold : Nat) : (withThreshold threshold : Heap Obj).Sound := by
  have vacant : ∀ i, ¬ (withThreshold threshold : Heap Obj).Vacant i := fun i v => absurd v.1 (by
    simp [withThreshold])
  have dead : ∀ n, ¬ (withThreshold threshold : Heap Obj).Live n := by
    intro n live
    rcases live with ⟨i, occupant⟩
    simp [withThreshold, occupantAt] at occupant
  refine ⟨List.nodup_nil, ?_, ?_, ?_, ?_⟩
  · intro i
    exact ⟨fun member => absurd member (by simp [withThreshold]), fun v => absurd v (vacant i)⟩
  · intro i j n occupant
    exact absurd ⟨i, occupant⟩ (dead n)
  · intro n live
    exact absurd live (dead n)
  · intro n member
    exact absurd member (by simp [withThreshold])

theorem Sound.of_same {h h' : Heap Obj} (sound : h.Sound) (slots : h'.slots = h.slots)
    (free : h'.free = h.free) (content : ∀ n, h.Live n → ∃ object, h'.object? n = some object)
    (doomed : ∀ n, n ∈ h'.doomed → n < h'.objects.size ∧ ¬ h.Live n) : h'.Sound := by
  have live : ∀ n, h'.Live n ↔ h.Live n := by simp [Live, slots]
  refine ⟨free ▸ sound.nodup_free, ?_, ?_, ?_, ?_⟩
  · intro i
    rw [free, sound.mem_free, Vacant, Vacant, slots]
  · rw [slots]
    exact sound.one_slot
  · intro n alive
    exact content n ((live n).mp alive)
  · intro n member
    rw [live]
    exact doomed n member

theorem lt_of_object? {h : Heap Obj} {n : Nat} {object : Obj} (found : h.object? n = some object) :
    n < h.objects.size := by
  cases entry : h.objects[n]? with
  | none => simp [object?, entry] at found
  | some o => exact (Array.getElem?_eq_some_iff.mp entry).1

theorem Sound.lt_objects {h : Heap Obj} (sound : h.Sound) {n : Nat} (live : h.Live n) :
    n < h.objects.size := by
  obtain ⟨object, found⟩ := sound.content n live
  exact lt_of_object? found

theorem object?_drop (h : Heap Obj) (n k : Nat) :
    (h.drop n).object? k = if n = k then none else h.object? k := by
  simp only [object?, drop, Array.getElem?_setIfInBounds]
  split
  · split <;> rfl
  · rfl

theorem Sound.drop {h : Heap Obj} (sound : h.Sound) {n : Nat} (gone : ¬ h.Live n) :
    (h.drop n).Sound := by
  refine sound.of_same rfl rfl ?_ ?_
  · intro k live
    rw [object?_drop, if_neg]
    · exact sound.content k live
    · intro same
      subst same
      exact gone live
  · intro k member
    rw [Heap.drop, Array.size_setIfInBounds]
    exact sound.doomed k member

structure Placed (h : Heap Obj) (object : Obj) (x : Handle) (h' : Heap Obj) (i : Nat) : Prop where
  index : x.index = UInt32.ofNat i
  vacant : occupantAt h.slots i = none
  generation : generationAt h.slots i = some x.generation ∨ h.slots.size = i ∧ x.generation = 0
  occupants : ∀ j, occupantAt h'.slots j =
    if i = j then some h.objects.size else occupantAt h.slots j
  generations : ∀ j, generationAt h'.slots j =
    if i = j then some x.generation else generationAt h.slots j
  objects : h'.objects = h.objects.push (some object)
  free : h'.free = h.free.erase i
  doomed : h'.doomed = h.doomed

theorem birthMark_generation (h : Heap Obj) (s : Header) :
    (h.birthMark s).generation = s.generation := by
  unfold birthMark
  split <;> rfl

theorem Sound.allocate {h : Heap Obj} (sound : h.Sound) {object : Obj} {x : Handle} {h' : Heap Obj}
    (made : h.allocate object = some (x, h')) : ∃ i, h.Placed object x h' i := by
  unfold Heap.allocate at made
  split at made
  · exact absurd made (by simp)
  split at made
  · rename_i index rest free
    obtain ⟨inside, vacant⟩ := (sound.mem_free index).mp (by simp [free])
    simp only [Option.some.injEq, Prod.mk.injEq] at made
    obtain ⟨rfl, rfl⟩ := made
    refine ⟨index, rfl, vacant, Or.inl ?_, ?_, ?_, rfl, by simp [free], rfl⟩
    · simp [generationAt, inside, birthMark_generation]
    · intro j
      simp only [Array.setIfInBounds, inside, dite_true]
      exact occupantAt_set h.slots inside _ j
    · intro j
      simp only [Array.setIfInBounds, inside, dite_true]
      exact generationAt_set h.slots inside _ j
  · rename_i free
    simp only [Option.some.injEq, Prod.mk.injEq] at made
    obtain ⟨rfl, rfl⟩ := made
    refine ⟨h.slots.size, rfl, ?_, Or.inr ⟨rfl, rfl⟩, ?_, ?_, rfl, by simp [free], rfl⟩
    · simp [occupantAt]
    · intro j
      simp only [occupantAt_push, eq_comm]
    · intro j
      simp only [generationAt_push, birthMark_generation, eq_comm]

namespace Placed

variable {h h' : Heap Obj} {object : Obj} {x : Handle} {i : Nat}

theorem object? (placed : h.Placed object x h' i) (n : Nat) :
    h'.object? n = if n = h.objects.size then some object else h.object? n := by
  rw [Heap.object?, placed.objects, Array.getElem?_push]
  split <;> rfl

theorem live (placed : h.Placed object x h' i) (n : Nat) :
    h'.Live n ↔ n = h.objects.size ∨ h.Live n := by
  constructor
  · intro live
    rcases live with ⟨j, occupant⟩
    rw [placed.occupants] at occupant
    split at occupant
    · exact Or.inl (Option.some.inj occupant).symm
    · exact Or.inr ⟨j, occupant⟩
  · intro is
    rcases is with rfl | ⟨j, occupant⟩
    · exact ⟨i, by rw [placed.occupants, if_pos rfl]⟩
    · refine ⟨j, ?_⟩
      rw [placed.occupants, if_neg, occupant]
      intro same
      subst same
      exact absurd (placed.vacant.symm.trans occupant) (by simp)

theorem vacant_iff (placed : h.Placed object x h' i) (j : Nat) :
    h'.Vacant j ↔ j ≠ i ∧ h.Vacant j := by
  rw [Heap.vacant_iff, Heap.vacant_iff, placed.occupants, placed.generations]
  by_cases here : i = j
  · simp [here]
  · simp [here, Ne.symm here]

theorem sound (placed : h.Placed object x h' i) (sound : h.Sound) : h'.Sound := by
  refine ⟨?_, ?_, ?_, ?_, ?_⟩
  · rw [placed.free]
    exact sound.nodup_free.erase i
  · intro j
    rw [placed.free, sound.nodup_free.mem_erase_iff, placed.vacant_iff, sound.mem_free]
  · intro j k n at_j at_k
    rw [placed.occupants] at at_j at_k
    have fresh : ∀ k, occupantAt h.slots k ≠ some h.objects.size := fun k at_k =>
      absurd (sound.lt_objects ⟨k, at_k⟩) (Nat.lt_irrefl _)
    split at at_j
    · rename_i here
      split at at_k
      · rename_i there
        exact here.symm.trans there
      · exact absurd (at_k.trans at_j.symm) (fresh k)
    · split at at_k
      · exact absurd (at_j.trans at_k.symm) (fresh j)
      · exact sound.one_slot j k n at_j at_k
  · intro n live
    rw [placed.object?]
    split
    · exact ⟨object, rfl⟩
    · rename_i other
      exact sound.content n (((placed.live n).mp live).resolve_left other)
  · intro n member
    rw [placed.doomed] at member
    obtain ⟨old, gone⟩ := sound.doomed n member
    rw [placed.objects, Array.size_push, placed.live]
    refine ⟨Nat.lt_succ_of_lt old, ?_⟩
    intro is
    rcases is with rfl | live
    · exact Nat.lt_irrefl _ old
    · exact gone live

end Placed

theorem object?_write {h : Heap Obj} {x : Handle} {n : Nat} {object : Obj}
    (number : h.number? x = some n) (inside : n < h.objects.size) (k : Nat) :
    (h.write x object).object? k = if n = k then some object else h.object? k := by
  simp only [object?, write, number, Array.getElem?_setIfInBounds]
  split
  · simp
  · rfl

theorem Sound.write {h : Heap Obj} (sound : h.Sound) {x : Handle} (alive : h.alive x = true)
    (object : Obj) : (h.write x object).Sound := by
  obtain ⟨n, number⟩ := alive_iff.mp alive
  have live := live_of_number? number
  refine sound.of_same ?_ ?_ ?_ ?_
  · simp only [Heap.write, number]
  · simp only [Heap.write, number]
  · intro k other
    rw [object?_write number (sound.lt_objects live)]
    split
    · exact ⟨object, rfl⟩
    · exact sound.content k other
  · simp only [Heap.write, number, Array.size_setIfInBounds]
    exact sound.doomed

theorem Sound.takes {h h' : Heap Obj} {d : Deposit Obj} (sound : h.Sound) (takes : h.Takes d h') :
    h'.Sound := by
  cases takes with
  | allocated made =>
    obtain ⟨i, placed⟩ := sound.allocate made
    exact placed.sound sound
  | written alive => exact sound.write alive _

theorem Sound.sweep {h : Heap Obj} (sound : h.Sound) {m : Marking}
    (same : Marking.SameObjects h m) : (h.sweep m).Sound := by
  have occupied : ∀ i, i ∈ garbage m.slots → ∃ n, occupantAt h.slots i = some n := by
    intro i member
    obtain ⟨⟨n, occupant⟩, _⟩ := mem_garbage.mp member
    exact ⟨n, by rw [← (same i).1, occupant]⟩
  refine ⟨?_, ?_, ?_, ?_, ?_⟩
  · refine List.nodup_append.mpr ⟨List.nodup_reverse.mpr (nodup_garbage _), sound.nodup_free, ?_⟩
    intro i swept _ free same
    subst same
    obtain ⟨n, occupant⟩ := occupied i (List.mem_reverse.mp swept)
    exact absurd (((sound.mem_free i).mp free).2.symm.trans occupant) (by simp)
  · intro i
    rw [vacant_iff, sweep_occupantAt same, sweep_generationAt same]
    simp only [Heap.sweep, List.mem_append, List.mem_reverse]
    by_cases swept : i ∈ garbage m.slots
    · obtain ⟨n, occupant⟩ := occupied i swept
      have exists_slot : (generationAt h.slots i).isSome = true := by
        simp [generationAt, lt_size_of_occupantAt occupant]
      simp [swept, exists_slot]
    · simp only [swept, false_or, if_false]
      rw [sound.mem_free, vacant_iff]
  · intro i j n at_i at_j
    rw [sweep_occupantAt same] at at_i at_j
    split at at_i
    · exact absurd at_i (by simp)
    · split at at_j
      · exact absurd at_j (by simp)
      · exact sound.one_slot i j n at_i at_j
  · intro n live
    obtain ⟨i, _, occupant⟩ := (live_sweep same).mp live
    exact sound.content n ⟨i, occupant⟩
  · intro n member
    rw [sweep_doomed same] at member
    obtain ⟨i, swept, occupant⟩ := List.mem_filterMap.mp member
    refine ⟨sound.lt_objects ⟨i, occupant⟩, fun live => ?_⟩
    obtain ⟨j, kept, occupant'⟩ := (live_sweep same).mp live
    exact kept (sound.one_slot i j n occupant occupant' ▸ swept)

theorem Sound.of_phase {h : Heap Obj} (sound : h.Sound) (phase : Phase) :
    Sound { h with phase } :=
  sound.of_same rfl rfl sound.content sound.doomed

theorem Sound.letGo {h h' : Heap Obj} (sound : h.Sound) {n : Nat}
    (first : h.letGo = some (n, h')) : h'.Sound ∧ ¬ h'.Live n := by
  obtain ⟨doomed, same⟩ := letGo_eq first
  rw [same]
  refine ⟨sound.of_same rfl rfl sound.content ?_, (sound.doomed n (by simp [doomed])).2⟩
  intro k member
  exact sound.doomed k (by simp [doomed, member])

theorem not_live_of_unreferenced {h : Heap Obj} {n : Nat} (last : h.unreferenced n = true) :
    ¬ h.Live n := by
  intro live
  rcases live with ⟨i, occupant⟩
  obtain ⟨s, slot, occupied⟩ := Option.bind_eq_some_iff.mp occupant
  obtain ⟨inside, rfl⟩ := Array.getElem?_eq_some_iff.mp slot
  have found : h.slots.any (·.occupant == some n) = true :=
    Array.any_eq_true.mpr ⟨i, inside, by simp [occupied]⟩
  simp [unreferenced, found] at last

theorem Sound.upkeep [Traced Obj] {h h' : Heap Obj} (sound : h.Sound) (upkeep : h.Upkeep h') :
    h'.Sound := by
  cases upkeep with
  | same => exact sound
  | retain took =>
    rw [(retain_eq took).2]
    exact sound.of_same rfl rfl sound.content sound.doomed
  | threshold | release => exact sound.of_same rfl rfl sound.content sound.doomed
  | @releaseLast n last =>
    have released : (h.release n).Sound := sound.of_same rfl rfl sound.content sound.doomed
    exact released.drop (not_live_of_unreferenced last)
  | begin => exact sound.of_phase _
  | visit =>
    unfold visitRoots
    split
    · exact sound.of_phase _
    · exact sound
  | sweep =>
    unfold markAndSweep
    split
    · exact sound.sweep (mark_triColour h _).same
    · exact sound
  | letGo first => exact (sound.letGo first).1
  | letGoLast first => exact (sound.letGo first).1.drop (sound.letGo first).2
  | conclude =>
    unfold conclude
    split
    · exact sound.of_same rfl rfl sound.content sound.doomed
    · exact sound

end Heap

namespace Execution

variable {Obj τ : Type} [Facility τ] {E : Embedder Obj τ}

/-- The embedder's own code is about to begin, and the heap is empty. -/
def Fresh (x : Execution E) : Prop :=
  ∃ (world : World Obj τ) (state : E.State) (a : E.Activity) (threshold : Nat),
    world.heap = .withThreshold threshold ∧ x = start world state a

theorem sound_run [Traced Obj] {x : Execution E} (fresh : x.Fresh) (n : Nat) :
    (x.run n).world.heap.Sound := by
  obtain ⟨world, state, a, threshold, empty, rfl⟩ := fresh
  refine run_invariant (P := fun y => y.world.heap.Sound) ?_ ?_ n
  · have sound : (Heap.withThreshold threshold : Heap Obj).Sound :=
      Heap.sound_withThreshold threshold
    rwa [← empty] at sound
  · intro y z sound stepped
    rcases step_heap stepped with ⟨upkeep, _⟩ | ⟨_, takes, _⟩
    · exact sound.upkeep upkeep
    · exact sound.takes takes

end Execution

end HostBridge
