import HostBridge.Proofs.Heap.Nesting
/-!
# The balance of a heap

Only allocations add to the live objects and only sweeps take away from them. So outside of collections
the live objects are those that the last one has recorded, and those that were allocated since.
-/

namespace HostBridge

variable {Obj τ : Type}

theorem issued_cons (d : Deposit Obj) (deposits : List (Deposit Obj)) :
    issued (d :: deposits) = issued deposits ++ issued [d] := by
  simp [issued, List.filterMap_append]

namespace Heap

variable {h h' : Heap Obj}

theorem liveCount_allocate (sound : h.Sound) {object : Obj} {x : Handle}
    (made : h.allocate object = some (x, h')) : h'.liveCount = h.liveCount + 1 := by
  unfold Heap.allocate at made
  split at made
  · cases made
  split at made
  · rename_i index rest free
    obtain ⟨inside, vacant⟩ := (sound.mem_free index).mp (by simp [free])
    have empty : h.slots[index].occupied = false := by
      rw [Slot.occupantAt, Array.getElem?_eq_getElem inside] at vacant
      rw [Slot.occupied, show h.slots[index].occupant = none from vacant]
      rfl
    cases made
    simp only [liveCount, Array.setIfInBounds, inside, dite_true, Array.countP_set, empty]
    simp [Slot.occupied]
  · cases made
    simp [liveCount, Array.countP_push, Slot.occupied]

theorem Takes.liveCount (sound : h.Sound) {d : Deposit Obj} (takes : h.Takes d h') :
    h'.liveCount = h.liveCount + (issued [d]).length := by
  cases takes with
  | allocated made => exact liveCount_allocate sound made
  | written => rw [Heap.liveCount, slots_eq_of_write]; rfl

theorem Takes.tally {d : Deposit Obj} (takes : h.Takes d h') :
    h'.allocated = h.allocated + (issued [d]).length ∧ h'.stats = h.stats := by
  cases takes with
  | allocated made =>
    rw [allocate_eq made]
    exact ⟨rfl, rfl⟩
  | written =>
    rw [write_eq]
    exact ⟨rfl, rfl⟩

theorem Upkeep.tally [Traced Obj] (upkeep : h.Upkeep h') :
    h'.allocated = h.allocated ∧ h'.stats = h.stats ∨
      (∃ marked reclaimed, h.phase = .dropping marked reclaimed) ∧ h'.phase = .idle := by
  cases upkeep with
  | retain took => rw [(retain_eq took).2]; exact Or.inl ⟨rfl, rfl⟩
  | visit =>
    rw [visitRoots_eq]
    exact Or.inl ⟨rfl, rfl⟩
  | sweep =>
    rw [markAndSweep_eq]
    exact Or.inl ⟨rfl, rfl⟩
  | letGo first => rw [(letGo_eq first).2]; exact Or.inl ⟨rfl, rfl⟩
  | letGoLast first => rw [(letGo_eq first).2]; exact Or.inl ⟨rfl, rfl⟩
  | conclude =>
    unfold Heap.conclude
    split
    · rename_i phase
      exact Or.inr ⟨⟨_, _, phase⟩, rfl⟩
    · exact Or.inl ⟨rfl, rfl⟩
  | same | threshold | release | releaseLast | «begin» => exact Or.inl ⟨rfl, rfl⟩

end Heap

namespace Execution

variable [Facility τ] {E : Embedder Obj τ}

def allocations [Traced Obj] (x : Execution E) (m n : Nat) : Nat :=
  (issued (x.run n).deposits).length - (issued (x.run m).deposits).length

variable [Traced Obj] {x : Execution E} {m n s t : Nat}

/-- The last sweep was over after `s` of the `n` steps, with all that was dropped; or there was none. -/
inductive SweptAt (x : Execution E) : Nat → Nat → Prop
  | never : SweptAt x 0 0
  | now {n : Nat} (next : (x.run n).AtTask .conclude) : SweptAt x (n + 1) (n + 1)
  | before {s n : Nat} (swept : SweptAt x s n) (other : ¬ (x.run n).AtTask .conclude) :
      SweptAt x s (n + 1)

theorem dropping_succ {marked reclaimed : Nat}
    (phase : (x.run n).world.heap.phase = .dropping marked reclaimed)
    (other : ¬ (x.run n).AtTask .conclude) :
    (x.run (n + 1)).world.heap.phase = .dropping marked reclaimed := by
  cases x.run_rewrites n with
  | idle _ _ world | halted _ _ world | called _ _ world => rw [world, phase]
  | performed _ _ world => rw [world, Command.perform_phase, phase]
  | began _ _ world =>
    have collecting : (x.run n).world.heap.collecting = true := by
      rw [Heap.collecting, phase]
      rfl
    rw [world, (Procedure.start_items (x.run n).world _ fun _ _ => collecting).1, phase]
  | returned _ _ world =>
    rw [world, Call.resume_heap]
    simp [Heap.visitRoots, phase]
  | @worked t p rest top _ _ world =>
    have not_last : t ≠ .conclude := by
      rintro rfl
      exact other ⟨rest, top⟩
    rw [world, Task.run_dropping not_last _ p phase]

theorem dropping_of_not_conclude {marked reclaimed : Nat} (le : m ≤ n)
    (phase : (x.run m).world.heap.phase = .dropping marked reclaimed)
    (other : ∀ l, m ≤ l → l < n → ¬ (x.run l).AtTask .conclude) :
    (x.run n).world.heap.phase = .dropping marked reclaimed := by
  induction le with
  | refl => exact phase
  | @step n le ih =>
    refine dropping_succ ?_ (other n le (Nat.lt_succ_self n))
    exact ih fun l after lt => other l after (Nat.lt_succ_of_lt lt)

omit [Traced Obj] in
theorem Grows.deposits {y z : Execution E} {signals : List Signal} {last : List (Event E)}
    (grows : Grows y z signals last) :
    z.deposits = last.filterMap Event.deposit? ++ y.deposits := by
  obtain ⟨quiet, silent, history⟩ := grows
  have nothing : quiet.filterMap Event.deposit? = [] := by
    rw [List.filterMap_eq_nil_iff]
    intro v mem
    have quiet := silent v mem
    cases v with
    | performed => cases quiet
    | _ => rfl
  rw [Execution.deposits, history, List.filterMap_append, filterMap_signalled,
    List.filterMap_append, nothing, List.nil_append, Execution.deposits]

theorem allocations_of_same (told : (x.run (n + 1)).deposits = (x.run n).deposits) :
    x.allocations n (n + 1) = 0 := by
  rw [allocations, told, Nat.sub_self]

theorem allocations_of_deposit {d : Deposit Obj}
    (told : (x.run (n + 1)).deposits = d :: (x.run n).deposits) :
    x.allocations n (n + 1) = (issued [d]).length := by
  rw [allocations, told, issued_cons d (x.run n).deposits, List.length_append,
    Nat.add_sub_cancel_left]

theorem allocations_succ (le : m ≤ n) :
    x.allocations m (n + 1) = x.allocations m n + x.allocations n (n + 1) := by
  have grows : ∀ l k, l ≤ k →
      (issued (x.run l).deposits).length ≤ (issued (x.run k).deposits).length := by
    intro l k le
    induction le with
    | refl => exact Nat.le_refl _
    | @step k _ ih =>
      refine Nat.le_trans ih ?_
      rcases run_succ_cases x k with same | stepped
      · rw [same]
      · rcases step_heap stepped with ⟨_, told⟩ | ⟨d, _, told⟩
        · rw [told]
        · rw [told, issued_cons d (x.run k).deposits, List.length_append]
          exact Nat.le_add_right _ _
  have first := grows m n le
  have second := grows n (n + 1) (Nat.le_succ n)
  unfold allocations
  omega

theorem liveCount_succ (fresh : x.Fresh) (no_sweep : ∀ visited, ¬ (x.run n).Sweeps visited) :
    (x.run (n + 1)).world.heap.liveCount =
      (x.run n).world.heap.liveCount + x.allocations n (n + 1) := by
  rcases run_succ_cases x n with same | stepped
  · rw [allocations_of_same (congrArg deposits same), same, Nat.add_zero]
  · rcases step_heap stepped with ⟨upkeep, told⟩ | ⟨d, takes, told⟩
    · rw [allocations_of_same told]
      rcases upkeep.slots_or_sweep with slots | ⟨visited, phase, swept⟩
      · rw [Heap.liveCount, slots]
        rfl
      · rcases tracing_succ phase with ⟨vs, still⟩ | sweeps
        · rw [swept] at still
          cases still
        · exact absurd sweeps (no_sweep visited)
    · rw [takes.liveCount (sound_run fresh n), allocations_of_deposit told]

theorem liveCount_of_no_sweep (fresh : x.Fresh) (le : m ≤ n)
    (no_sweep : ∀ l, m ≤ l → l < n → ∀ visited, ¬ (x.run l).Sweeps visited) :
    (x.run n).world.heap.liveCount = (x.run m).world.heap.liveCount + x.allocations m n := by
  induction le with
  | refl => rw [allocations, Nat.sub_self, Nat.add_zero]
  | @step n le ih =>
    rw [liveCount_succ fresh (no_sweep n le (Nat.lt_succ_self n)),
      ih fun l after lt => no_sweep l after (Nat.lt_succ_of_lt lt), allocations_succ le,
      Nat.add_assoc]

/-- A step concludes a collection, or the tally grows by what is allocated. -/
theorem tally_succ (other : ¬ (x.run n).AtTask .conclude) :
    (x.run (n + 1)).world.heap.allocated =
        (x.run n).world.heap.allocated + x.allocations n (n + 1) ∧
      (x.run (n + 1)).world.heap.stats = (x.run n).world.heap.stats := by
  rcases run_succ_cases x n with same | stepped
  · rw [allocations_of_same (congrArg deposits same), same]
    exact ⟨rfl, rfl⟩
  · rcases step_heap stepped with ⟨upkeep, told⟩ | ⟨d, takes, told⟩
    · rw [allocations_of_same told]
      rcases upkeep.tally with same | ⟨⟨_, _, phase⟩, idle⟩
      · exact same
      · rw [dropping_succ phase other] at idle
        cases idle
    · rw [allocations_of_deposit told]
      exact takes.tally

theorem AtTask.conclude (next : (x.run n).AtTask .conclude) :
    (x.run (n + 1)).world.heap = (x.run n).world.heap.conclude := by
  obtain ⟨rest, top⟩ := next
  obtain ⟨p, _, world⟩ := (x.run_rewrites n).of_task top fun k h => by cases h
  rw [world]
  rfl

theorem SweptAt.le (swept : x.SweptAt s n) : s ≤ n := by
  induction swept with
  | never | now => exact Nat.le_refl _
  | before _ _ ih => exact Nat.le_succ_of_le ih

theorem allocations_self (x : Execution E) (n : Nat) : x.allocations n n = 0 :=
  Nat.sub_self _

theorem SweptAt.allocated (fresh : x.Fresh) (swept : x.SweptAt s n) :
    (x.run n).world.heap.allocated = x.allocations s n := by
  induction swept with
  | never =>
    obtain ⟨world, state, a, threshold, empty, rfl⟩ := fresh
    rw [allocations_self]
    exact congrArg Heap.allocated empty
  | now next =>
    obtain ⟨marked, reclaimed, phase⟩ := next.dropping fresh
    rw [allocations_self, next.conclude]
    simp only [Heap.conclude, phase]
  | before swept other ih => rw [(tally_succ other).1, ih, allocations_succ swept.le]

/-- Outside of the dropping phase the live objects are those that were recorded and the new ones. -/
theorem SweptAt.balance (fresh : x.Fresh) (swept : x.SweptAt s n)
    (settled : ∀ marked reclaimed, (x.run n).world.heap.phase ≠ .dropping marked reclaimed) :
    (x.run n).world.heap.liveCount =
      (x.run n).world.heap.stats.live + x.allocations s n := by
  induction swept with
  | never =>
    obtain ⟨world, state, a, threshold, empty, rfl⟩ := fresh
    rw [allocations_self]
    have same : ((start world state a : Execution E).run 0).world.heap = .withThreshold threshold :=
      empty
    rw [same]
    rfl
  | now next =>
    obtain ⟨marked, reclaimed, phase⟩ := next.dropping fresh
    rw [allocations_self, next.conclude]
    simp only [Heap.conclude, phase]
    rfl
  | @before s n swept other ih =>
    have no_sweep : ∀ visited, ¬ (x.run n).Sweeps visited := by
      intro visited sweeps
      apply settled
      rw [sweeps.heap]
      rfl
    -- Only a conclusion ends the dropping phase, and this step is none.
    have before : ∀ marked reclaimed,
        (x.run n).world.heap.phase ≠ .dropping marked reclaimed := by
      intro marked reclaimed phase
      exact settled _ _ (dropping_succ phase other)
    rw [liveCount_succ fresh no_sweep, ih before, (tally_succ other).2, allocations_succ swept.le]
    omega

end Execution

end HostBridge
