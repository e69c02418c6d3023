import HostBridge.Proofs.Heap.Tracing
/-!
# One collection at a time

A collection goes on until nothing of it is left to do. In a round, in which one collection begins
and comes to its end, the heap is swept once: after the root sets of the collection have been
traced, and before they are told that it has finished. That sweep decides which handles survive the
round.
-/

namespace HostBridge

variable {Obj τ : Type}

open Slot

/-- The handle's generation of its slot has ended. -/
def Heap.Stale (h : Heap Obj) (y : Handle) : Prop :=
  ∃ g, generationAt h.slots y.index.toNat = some g ∧ g ≠ y.generation

theorem Heap.Stale.not_alive {h : Heap Obj} {y : Handle} (stale : h.Stale y) :
    h.alive y = false := by
  obtain ⟨g, generation, other⟩ := stale
  have ended : some g ≠ some y.generation := fun same => other (Option.some.inj same)
  rw [alive, number?_eq_numberAt, numberAt, generation, if_neg ended]
  rfl

theorem Heap.Takes.stale {h h' : Heap Obj} {d : Deposit Obj} (sound : h.Sound)
    (takes : h.Takes d h') {y : Handle} (stale : h.Stale y) : h'.Stale y := by
  obtain ⟨g, generation, other⟩ := stale
  cases takes with
  | allocated made =>
    obtain ⟨i, placed⟩ := sound.allocate made
    by_cases here : i = y.index.toNat
    · refine ⟨g, ?_, other⟩
      rw [placed.generations, if_pos here]
      rcases placed.generation with old | ⟨size, _⟩
      · rw [here, generation] at old
        exact old.symm
      · have outside := generationAt_eq_none.mpr (Nat.le_of_eq (size.trans here))
        rw [generation] at outside
        exact nomatch outside
    · exact ⟨g, by rw [placed.generations, if_neg here, generation], other⟩
  | written => exact ⟨g, by rw [Heap.slots_eq_of_write, generation], other⟩

variable [Facility τ] [Traced Obj] {E : Embedder Obj τ}

namespace Execution

def Collecting (x : Execution E) : Prop := x.collectionTasks ≠ []

instance (x : Execution E) : Decidable x.Collecting :=
  decidable_of_iff (x.collectionTasks.isEmpty = false) (by simp [Collecting])

/-- One collection begins between `m` and `f`, at `b`, and at neither of them any is in progress. -/
structure Round (x : Execution E) (roots : List RootSet) (m b f : Nat) : Prop where
  idle : ¬ (x.run m).Collecting
  after : m ≤ b
  before : b < f
  begins : (x.run b).Begins roots
  alone : ∀ l, m ≤ l → l < f → ∀ others, (x.run l).Begins others → l = b
  ended : ¬ (x.run f).Collecting

variable {x : Execution E} {m n : Nat}

omit [Traced Obj] in
theorem AtTask.collecting {x : Execution E} {t : Task Obj} (next : x.AtTask t)
    (ofCollection : t.OfCollection) : x.Collecting := by
  obtain ⟨rest, tasks⟩ := next.collectionTasks ofCollection
  rw [Collecting, tasks]
  exact List.cons_ne_nil _ _

theorem collecting_of_tracing (fresh : x.Fresh) (tracing : (x.run n).world.heap.tracing = true) :
    (x.run n).Collecting := by
  obtain ⟨visited, phase⟩ := Heap.phase_of_tracing tracing
  have progresses := run_progresses fresh n
  rw [progresses_tracing phase] at progresses
  obtain ⟨_, _, _, _, _, _, tasks⟩ := progresses
  rw [Collecting, tasks]
  simp

/-- The root sets are told of the end when no collection works on the heap any more. -/
theorem AtTask.traceComplete_idle (fresh : x.Fresh) {r : RootSet}
    (next : (x.run n).AtTask (.traceComplete r)) : (x.run n).world.heap.tracing ≠ true := by
  intro tracing
  obtain ⟨visited, phase⟩ := Heap.phase_of_tracing tracing
  have progresses := run_progresses fresh n
  rw [progresses_tracing phase] at progresses
  obtain ⟨_, _, rest, _, _, _, tasks⟩ := progresses
  obtain ⟨_, first⟩ := next.collectionTasks trivial
  rw [first] at tasks
  rcases rest with _ | ⟨r', rest⟩
  · exact nomatch (List.cons.inj tasks).1
  · exact nomatch (List.cons.inj tasks).1

theorem AtTask.sweeps (fresh : x.Fresh) (next : (x.run n).AtTask .markAndSweep) :
    ∃ visited, (x.run n).Sweeps visited := by
  have progresses := run_progresses fresh n
  obtain ⟨rest, first⟩ := next.collectionTasks trivial
  cases phase : (x.run n).world.heap.phase with
  | tracing visited => exact ⟨visited, next, phase⟩
  | idle =>
    rw [progresses_idle phase, first] at progresses
    obtain ⟨r, same⟩ := progresses .markAndSweep List.mem_cons_self
    exact nomatch same
  | dropping =>
    rw [progresses_dropping phase, first] at progresses
    obtain ⟨_, _, same | same⟩ := progresses
    · exact nomatch (List.cons.inj same).1
    · exact nomatch (List.cons.inj same).1

theorem Begins.collectionTasks {roots : List RootSet} (begins : (x.run n).Begins roots) :
    (x.run (n + 1)).collectionTasks =
      Procedure.collection roots ++ (x.run n).collectionTasks := by
  obtain ⟨⟨k, resume, requests⟩, idle⟩ := begins
  have started : (Procedure.start (x.run n).world (.collect roots)).first =
      Procedure.collection roots := by simp [Procedure.start, idle]
  obtain ⟨at_bridge, below, _⟩ := requests.run_one
  obtain ⟨a, _, _, at_code, _⟩ := requests
  rw [← run_add] at at_bridge below
  rw [Execution.collectionTasks, frames_of_bridge at_bridge, List.flatMap_cons, below, started,
    collectionTasksOf_collection, Execution.collectionTasks, frames_of_code at_code]

omit [Traced Obj] in
theorem Begins.unique {y : Execution E} {roots others : List RootSet} (begins : y.Begins roots)
    (also : y.Begins others) : roots = others := by
  obtain ⟨⟨_, _, requests⟩, _⟩ := begins
  obtain ⟨⟨_, _, requests'⟩, _⟩ := also
  exact Procedure.collect.inj (requests.unique requests')

theorem collectionTasks_succ {t : Task Obj} (left : t ∈ (x.run n).collectionTasks) :
    t ∈ (x.run (n + 1)).collectionTasks ∨ (x.run n).AtTask t := by
  rcases run_succ_cases x n with same | stepped
  · exact Or.inl (same.symm ▸ left)
  · cases step_collector stepped with
    | quiet _ tasks => exact Or.inl (tasks.symm ▸ left)
    | begins _ tasks => exact Or.inl (tasks.symm ▸ List.mem_append_right _ left)
    | works tasks next _ rest =>
      rw [tasks] at left
      rcases List.mem_cons.mp left with rfl | later
      · exact Or.inr next
      · exact Or.inl (rest.symm ▸ List.mem_append_right _ later)

theorem exists_atTask {t : Task Obj} (left : t ∈ (x.run m).collectionTasks) (le : m ≤ n)
    (ended : ¬ (x.run n).Collecting) : ∃ l, m ≤ l ∧ l < n ∧ (x.run l).AtTask t := by
  have done : t ∈ (x.run n).collectionTasks ∨ ∃ l, m ≤ l ∧ l < n ∧ (x.run l).AtTask t := by
    clear ended
    induction le with
    | refl => exact Or.inl left
    | @step n le ih =>
      rcases ih with still | ⟨l, after, before, next⟩
      · rcases collectionTasks_succ still with still | next
        · exact Or.inl still
        · exact Or.inr ⟨n, le, Nat.lt_succ_self n, next⟩
      · exact Or.inr ⟨l, after, Nat.lt_succ_of_lt before, next⟩
  rcases done with still | done
  · exact absurd (List.ne_nil_of_mem still) ended
  · exact done

theorem Collecting.of_succ (collecting : (x.run (n + 1)).Collecting) :
    (x.run n).Collecting ∨ ∃ roots, (x.run n).Begins roots := by
  rcases run_succ_cases x n with same | stepped
  · exact Or.inl (same ▸ collecting)
  · cases step_collector stepped with
    | quiet _ tasks => exact Or.inl (by rwa [Collecting, tasks] at collecting)
    | begins begins => exact Or.inr ⟨_, begins⟩
    | works tasks =>
      left
      rw [Collecting, tasks]
      exact List.cons_ne_nil _ _

theorem exists_begins (le : m ≤ n) (idle : ¬ (x.run m).Collecting)
    (collecting : (x.run n).Collecting) : ∃ b roots, m ≤ b ∧ b < n ∧ (x.run b).Begins roots := by
  induction le with
  | refl => exact absurd collecting idle
  | @step n le ih =>
    rcases collecting.of_succ with before | ⟨roots, begins⟩
    · obtain ⟨b, roots, after, lt, begins⟩ := ih before
      exact ⟨b, roots, after, Nat.lt_succ_of_lt lt, begins⟩
    · exact ⟨n, roots, le, Nat.lt_succ_self n, begins⟩

theorem Sweeps.stale {visited : List Handle} (sweeps : (x.run n).Sweeps visited) {y : Handle}
    (alive : (x.run n).world.heap.alive y = true)
    (unreached : ¬ (x.run n).world.heap.Reachable visited y) :
    (x.run (n + 1)).world.heap.Stale y := by
  have dead : (x.run (n + 1)).world.heap.alive y ≠ true := fun still =>
    unreached (sweeps.alive_succ_iff.mp still).2
  rw [sweeps.heap] at dead ⊢
  rcases Heap.sweep_slot (x.run n).world.heap visited.reverse y.index.toNat with same | reclaimed
  · rw [Heap.alive, same.number?] at dead
    exact absurd alive dead
  · obtain ⟨number, named⟩ := Heap.alive_iff.mp alive
    rw [Heap.number?_eq_numberAt] at named
    refine ⟨y.generation + 1, ?_, ?_⟩
    · rw [reclaimed.2.2, (numberAt_eq_some.mp named).1]
      rfl
    · simp

/-- As long as the heap is not swept, a slot stays in its generation. -/
theorem stale_of_no_sweep (fresh : x.Fresh) (le : m ≤ n)
    (no_sweep : ∀ l, m ≤ l → l < n → ∀ visited, ¬ (x.run l).Sweeps visited) {y : Handle}
    (stale : (x.run m).world.heap.Stale y) : (x.run n).world.heap.Stale y := by
  induction le with
  | refl => exact stale
  | @step n le ih =>
    have before := ih fun l after lt => no_sweep l after (Nat.lt_succ_of_lt lt)
    rcases sweeps_or_slots x n with ⟨visited, sweeps⟩ | ⟨d, takes⟩ | slots
    · exact absurd sweeps (no_sweep n le (Nat.lt_succ_self n) visited)
    · exact takes.stale (sound_run fresh n) before
    · rwa [Heap.Stale, slots]

theorem alive_of_no_sweep (fresh : x.Fresh) (le : m ≤ n)
    (no_sweep : ∀ l, m ≤ l → l < n → ∀ visited, ¬ (x.run l).Sweeps visited) {y : Handle}
    (alive : (x.run m).world.heap.alive y = true) : (x.run n).world.heap.alive y = true := by
  have throughout : x.AliveThroughout y m n := (aliveThroughout_iff fresh alive).mpr
    fun l after before visited sweeps => absurd sweeps (no_sweep l after before visited)
  exact throughout n le (Nat.le_refl n)

namespace Round

variable {roots : List RootSet} {b f : Nat} (round : x.Round roots m b f) (fresh : x.Fresh)

include round

theorem exists_atTask {t : Task Obj} (part : t ∈ Procedure.collection roots) :
    ∃ l, b < l ∧ l < f ∧ (x.run l).AtTask t := by
  have left : t ∈ (x.run (b + 1)).collectionTasks := by
    rw [round.begins.collectionTasks]
    exact List.mem_append_left _ part
  exact Execution.exists_atTask left round.before round.ended

include fresh

theorem traced {l : Nat} {visited : List Handle} (after : m ≤ l) (before : l < f)
    (sweeps : (x.run l).Sweeps visited) : b < l ∧
      (∀ i, b < i → i ≤ l → (x.run i).world.heap.tracing = true) ∧
      ∀ r ∈ roots, ∃ j, b < j ∧ x.Traces j l r := by
  obtain ⟨b', others, lt, begins, tracing, traced⟩ := sweeps.gathered fresh
  have late : m ≤ b' := by
    apply Nat.le_of_not_lt
    intro early
    exact round.idle (collecting_of_tracing fresh (tracing m early after))
  obtain rfl : b' = b := round.alone b' late (Nat.lt_trans lt before) others begins
  obtain rfl : others = roots := begins.unique round.begins
  exact ⟨lt, tracing, traced⟩

theorem swept_once {l l' : Nat} {visited visited' : List Handle} (after : m ≤ l) (before : l < f)
    (sweeps : (x.run l).Sweeps visited) (after' : m ≤ l') (before' : l' < f)
    (sweeps' : (x.run l').Sweeps visited') : l = l' := by
  obtain ⟨begun, tracing, _⟩ := round.traced fresh after before sweeps
  obtain ⟨begun', tracing', _⟩ := round.traced fresh after' before' sweeps'
  rcases Nat.lt_trichotomy l l' with lt | same | lt
  · exact absurd (tracing' (l + 1) (Nat.lt_succ_of_lt begun) lt) sweeps.not_tracing
  · exact same
  · exact absurd (tracing (l' + 1) (Nat.lt_succ_of_lt begun') lt) sweeps'.not_tracing

theorem not_complete {l q : Nat} {visited : List Handle} (before : l < f)
    (sweeps : (x.run l).Sweeps visited) (after : m ≤ q) (le : q ≤ l) {r : RootSet} :
    ¬ (x.run q).AtTask (.traceComplete r) := by
  intro completes
  obtain ⟨_, tracing, _⟩ := round.traced fresh (Nat.le_trans after le) before sweeps
  obtain ⟨b', others, late, lt, begins⟩ :=
    exists_begins after round.idle (completes.collecting trivial)
  obtain rfl : b' = b :=
    round.alone b' late (Nat.lt_trans lt (Nat.lt_of_le_of_lt le before)) others begins
  exact completes.traceComplete_idle fresh (tracing q lt le)

/-- The round has one sweep, and all root sets have been traced for it. A handle survives the round
exactly if that sweep finds it reachable from what was visited. -/
theorem exists_sweep : ∃ l visited, b < l ∧ l < f ∧ (x.run l).Sweeps visited ∧
    (∀ r ∈ roots, ∃ j, b < j ∧ x.Traces j l r) ∧
    ∀ y, (x.run m).world.heap.alive y = true →
      ((x.run f).world.heap.alive y = true ↔ (x.run l).world.heap.Reachable visited y) := by
  obtain ⟨l, after, before, next⟩ :=
    round.exists_atTask (t := .markAndSweep) (by simp [Procedure.collection])
  obtain ⟨visited, sweeps⟩ := next.sweeps fresh
  have late : m ≤ l := Nat.le_trans round.after (Nat.le_of_lt after)
  obtain ⟨_, _, traced⟩ := round.traced fresh late before sweeps
  refine ⟨l, visited, after, before, sweeps, traced, fun y alive => ?_⟩
  have here : (x.run l).world.heap.alive y = true := by
    refine alive_of_no_sweep fresh late (fun i from_m lt visited' sweeps' => ?_) alive
    have same := round.swept_once fresh from_m (Nat.lt_trans lt before) sweeps' late before sweeps
    omega
  have none_later : ∀ i, l + 1 ≤ i → i < f → ∀ visited, ¬ (x.run i).Sweeps visited := by
    intro i later lt visited' sweeps'
    have same := round.swept_once fresh (by omega) lt sweeps' late before sweeps
    omega
  constructor
  · intro still
    by_contra unreached
    have stale := stale_of_no_sweep fresh before none_later (sweeps.stale here unreached)
    rw [stale.not_alive] at still
    cases still
  · intro reached
    exact alive_of_no_sweep fresh before none_later (sweeps.alive_succ_iff.mpr ⟨here, reached⟩)

end Round

end Execution

end HostBridge
