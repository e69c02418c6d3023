import HostBridge.Proofs.Execution.Plan
import HostBridge.Proofs.Heap.Owners
/-!
# When objects are dropped

An object is dropped once at most, which is when it loses the last of its owners. No handle names it any
more once it has lost its slot, so that no collection traces it, though native code that holds it still
reads its content.
-/

namespace HostBridge.Execution

variable {Obj τ : Type} [Facility τ] [Traced Obj] {E : Embedder Obj τ} {x : Execution E}
  {l m n s : Nat}

theorem run_backed (fresh : x.Fresh) (n : Nat) : (x.run n).world.heap.Backed := by
  induction n with
  | zero =>
    obtain ⟨world, state, a, threshold, empty, rfl⟩ := fresh
    have same : ((start world state a : Execution E).run 0).world.heap = .withThreshold threshold :=
      empty
    rw [same]
    exact ⟨List.nodup_nil, fun k mem => (by cases mem), fun k mem => (by cases mem)⟩
  | succ n ih =>
    rcases run_succ_cases x n with same | stepped
    · rwa [same]
    · rcases step_heap stepped with ⟨upkeep, _⟩ | ⟨d, takes, _⟩
      · exact ih.upkeep (sound_run fresh n) upkeep
      · exact ih.takes (sound_run fresh n) takes

/-- An object is there exactly as long as it has an owner. -/
theorem exists_object_iff_kept (fresh : x.Fresh) :
    (∃ object, (x.run m).world.heap.object? n = some object) ↔ (x.run m).world.heap.Kept n := by
  constructor
  · rintro ⟨object, found⟩
    exact run_accounted fresh m n object found
  · exact (run_backed fresh m).object?_of_kept (sound_run fresh m)

theorem run_disposal (fresh : x.Fresh) (n : Nat) : Disposal (x.run n) (x.run (n + 1)) :=
  (x.run_rewrites n).disposal (sound_run fresh n) (run_accounted fresh n)

def DropsAt (x : Execution E) (l n : Nat) (object : Obj) : Prop :=
  (x.run l).world.heap.object? n = some object ∧ (x.run (l + 1)).world.heap.object? n = none

variable {object : Obj}

theorem DropsAt.loses (fresh : x.Fresh) (drops : x.DropsAt l n object) :
    (x.run l).LosesLast n ∧ (x.run (l + 1)).AtTask (.call (.drop n object)) := by
  obtain ⟨content, gone⟩ := drops
  cases run_disposal fresh l with
  | keeps kept =>
    obtain ⟨_, still⟩ := kept n object content
    cases gone.symm.trans still
  | @drops k object' rest loses content' objects stack =>
    rw [Heap.object?_of_objects objects, Heap.object?_drop] at gone
    split at gone
    · rename_i here
      subst here
      obtain rfl := Option.some.inj (content.symm.trans content')
      exact ⟨loses, rest, stack⟩
    · cases content.symm.trans gone

theorem LosesLast.gone (loses : (x.run l).LosesLast n)
    (content : (x.run l).world.heap.object? n = some object) :
    (x.run (l + 1)).world.heap.object? n = none := by
  cases loses with
  | letGo next first free =>
    obtain ⟨rest, top⟩ := next
    obtain ⟨waiting, doomed⟩ := List.head?_eq_some_iff.mp first
    obtain ⟨p, _, world⟩ := (x.run_rewrites l).of_task top fun k same => by cases same
    have there : ({ (x.run l).world.heap with doomed := waiting } : Heap Obj).object? n =
        some object := content
    have last : ({ (x.run l).world.heap with doomed := waiting } : Heap Obj).isHeld n = false := free
    rw [world]
    simp only [Task.run, Heap.letGo, doomed, last, Bool.not_false, World.dropObject, there,
      Heap.object?_drop, if_true]
  | @release k resume requests last swept settled =>
    have there : ((x.run l).world.heap.release n).object? n = some object := content
    have lost : ((x.run l).world.heap.release n).unreferenced n = true := by
      have free : n ∉ (x.run l).world.heap.held.erase n := by
        rw [← List.count_eq_zero, List.count_erase_self, last]
      rw [Heap.unreferenced_iff, Heap.Kept, Heap.isHeld_iff]
      rintro (live | waits | held)
      · exact swept live
      · exact settled waits
      · exact free held
    obtain ⟨_, _, world⟩ := requests.run_one
    rw [← run_add] at world
    rw [world]
    simp only [Procedure.start, lost, World.dropObject, there, Heap.object?_drop, if_true]

theorem LosesLast.content (fresh : x.Fresh) (loses : (x.run l).LosesLast n) :
    ∃ object, (x.run l).world.heap.object? n = some object := by
  cases loses with
  | letGo _ first => exact (run_backed fresh l).doomed n (List.mem_of_mem_head? first)
  | release _ last =>
    refine (run_backed fresh l).held n (List.count_pos_iff.mp ?_)
    omega

theorem run_dropped (fresh : x.Fresh) (le : l ≤ m) (dropped : (x.run l).world.heap.Dropped n) :
    (x.run m).world.heap.Dropped n := by
  induction le with
  | refl => exact dropped
  | @step m _ ih =>
    rcases run_succ_cases x m with same | stepped
    · rwa [same]
    · rcases step_heap stepped with ⟨upkeep, _⟩ | ⟨d, takes, _⟩
      · exact ih.upkeep upkeep
      · exact ih.takes (sound_run fresh m) takes

theorem DropsAt.dropped (fresh : x.Fresh) (drops : x.DropsAt l n object) (lt : l < m) :
    (x.run m).world.heap.Dropped n := by
  refine run_dropped fresh lt ⟨?_, drops.2⟩
  have there := Heap.lt_of_object? drops.1
  rcases run_succ_cases x l with same | stepped
  · rwa [same]
  · rcases step_heap stepped with ⟨upkeep, _⟩ | ⟨d, takes, _⟩
    · rwa [upkeep.size_objects]
    · obtain ⟨_, still⟩ := takes.keeps_object (sound_run fresh l) drops.1
      cases drops.2.symm.trans still

theorem DropsAt.unique (fresh : x.Fresh) {object' : Obj} (drops : x.DropsAt l n object)
    (drops' : x.DropsAt m n object') : l = m := by
  have not_again : ∀ {l m object object'}, x.DropsAt l n object → x.DropsAt m n object' → ¬ l < m := by
    intro l m object object' drops drops' lt
    cases (drops.dropped fresh lt).2.symm.trans drops'.1
  exact Nat.le_antisymm (Nat.le_of_not_lt (not_again drops' drops))
    (Nat.le_of_not_lt (not_again drops drops'))

theorem DropsAt.not_kept (fresh : x.Fresh) (drops : x.DropsAt l n object) (lt : l < m) :
    ¬ (x.run m).world.heap.Kept n := by
  intro kept
  obtain ⟨_, found⟩ := (exists_object_iff_kept fresh).mpr kept
  cases (drops.dropped fresh lt).2.symm.trans found

theorem Sweeps.waits (fresh : x.Fresh) {visited : List Handle} (sweeps : (x.run s).Sweeps visited)
    (live : (x.run s).world.heap.Live n)
    (unreached : ¬ (x.run s).world.heap.Survives visited n) :
    n ∈ (x.run (s + 1)).world.heap.doomed := by
  have same := (Heap.mark_triColour (x.run s).world.heap visited.reverse).same
  obtain ⟨i, occupant⟩ := live
  rw [sweeps.heap, Heap.sweep_doomed same]
  refine List.mem_filterMap.mpr ⟨i, Heap.mem_garbage.mpr ⟨⟨n, ?_⟩, ?_⟩, occupant⟩
  · rw [(same i).1, occupant]
  · rwa [(sound_run fresh s).white_iff occupant, Heap.survives_reverse]

end HostBridge.Execution
