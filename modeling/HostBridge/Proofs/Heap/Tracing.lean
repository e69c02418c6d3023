import HostBridge.Proofs.Heap.Collector
import HostBridge.Proofs.Heap.Hook
import HostBridge.Proofs.Heap.Ledger
/-!
# What a sweep spares

When the heap is swept all root sets of the collection have been traced, each at a moment of its own
and with what it reported then. Sweeps alone reclaim slots, so a handle stays alive exactly as long
as every sweep finds it reachable from what was visited.
-/

namespace HostBridge

variable {Obj τ : Type}

theorem Heap.slots_eq_of_write (h : Heap Obj) (x : Handle) (object : Obj) :
    (h.write x object).slots = h.slots := by
  unfold Heap.write
  split <;> rfl

theorem Heap.Takes.keeps_alive {h h' : Heap Obj} {d : Deposit Obj} (sound : h.Sound)
    (takes : h.Takes d h') {y : Handle} (alive : h.alive y = true) : h'.alive y = true := by
  cases takes with
  | allocated made =>
    rcases sound.allocate made with ⟨i, placed⟩
    rwa [Heap.alive, placed.keeps_number? alive]
  | written => rwa [Heap.alive, Heap.SameSlot.number? (.of_eq (h.slots_eq_of_write _ _) _)]

theorem Heap.visitRoots_phase {h : Heap Obj} {visited : List Handle}
    (phase : h.phase = .tracing visited) (vs : List Handle) :
    (h.visitRoots vs).phase = .tracing (vs.reverse ++ visited) := by
  simp [visitRoots, phase]

theorem Heap.tracing_of_phase {h : Heap Obj} {visited : List Handle}
    (phase : h.phase = .tracing visited) : h.tracing = true := by
  rw [tracing, phase]

theorem Heap.phase_of_tracing {h : Heap Obj} (tracing : h.tracing = true) :
    ∃ visited, h.phase = .tracing visited := by
  rw [Heap.tracing] at tracing
  cases phase : h.phase with
  | tracing visited => exact ⟨visited, rfl⟩
  | idle | dropping =>
    rw [phase] at tracing
    cases tracing

section Tasks

variable [Traced Obj]

theorem Heap.reachable_reverse {h : Heap Obj} {visited : List Handle} {y : Handle} :
    h.Reachable visited.reverse y ↔ h.Reachable visited y := by
  constructor
  · intro reached
    induction reached with
    | root reported => exact .root (List.mem_reverse.mp reported)
    | reference _ found reported ih => exact .reference ih found reported
  · intro reached
    induction reached with
    | root reported => exact .root (List.mem_reverse.mpr reported)
    | reference _ found reported ih => exact .reference ih found reported

theorem run_traceRoots (env : Surroundings) (w : World Obj τ) (p : Progress) (r : RootSet) :
    collectionTasksOf (Task.run env w p (.traceRoots r)).first = [] ∧
      (Task.run env w p (.traceRoots r)).world.heap = w.heap.visitRoots (r.reported w) := by
  cases r with
  | external => exact ⟨rfl, (Heap.visitRoots_nil w.heap).symm⟩
  | bridge | context | handles => exact ⟨rfl, rfl⟩

theorem run_markAndSweep {w : World Obj τ} {visited : List Handle}
    (phase : w.heap.phase = .tracing visited) (env : Surroundings) (p : Progress) :
    (Task.run env w p .markAndSweep).world.heap = w.heap.sweep (w.heap.mark visited.reverse) := by
  simp only [Task.run, Heap.markAndSweep, phase]

theorem run_letGo (env : Surroundings) (w : World Obj τ) (p : Progress) :
    (collectionTasksOf (Task.run env w p .letGo).first = [] ∨
      collectionTasksOf (Task.run env w p .letGo).first = [.letGo]) ∧
      (Task.run env w p .letGo).world.heap.phase = w.heap.phase := by
  simp only [Task.run]
  split
  · rename_i n heap first
    have phase : heap.phase = w.heap.phase := by rw [(Heap.letGo_eq first).2]
    simp only [World.dropObject]
    split
    · exact ⟨Or.inr rfl, phase⟩
    · exact ⟨Or.inr rfl, phase⟩
  · exact ⟨Or.inl rfl, rfl⟩

theorem run_traceComplete (env : Surroundings) (w : World Obj τ) (p : Progress) (r : RootSet) :
    collectionTasksOf (Task.run env w p (.traceComplete r)).first = [] ∧
      (Task.run env w p (.traceComplete r)).world.heap = w.heap := by
  have other : ¬ (Task.traceComplete r : Task Obj).OfHeap := fun h => h
  exact ⟨collectionTasksOf_other (Task.run_first other env w p), Task.run_heap other env w p⟩

end Tasks

def OnlyTelling (todo : List (Task Obj)) : Prop := ∀ t ∈ todo, ∃ r, t = .traceComplete r

variable [Facility τ] [Traced Obj] {E : Embedder Obj τ}

namespace Execution

structure Sweeps (x : Execution E) (visited : List Handle) : Prop where
  next : x.AtTask .markAndSweep
  phase : x.world.heap.phase = .tracing visited

/-- The root set is traced at `j`, for the collection that still traces at `l`. -/
structure Traces (x : Execution E) (j l : Nat) (r : RootSet) : Prop where
  next : (x.run j).AtTask (.traceRoots r)
  before : j < l
  tracing : ∀ i, j ≤ i → i ≤ l → (x.run i).world.heap.tracing = true

structure Gathers (x : Execution E) (b : Nat) (roots rest : List RootSet) (n : Nat) : Prop where
  begins : (x.run b).Begins roots
  before : b < n
  tracing : ∀ i, b < i → i ≤ n → (x.run i).world.heap.tracing = true
  traced : ∀ r ∈ roots, r ∈ rest ∨ ∃ j, b < j ∧ j < n ∧ (x.run j).AtTask (.traceRoots r)

/-- How far the collection in progress has come, by the phase of the heap. -/
def Progresses (x : Execution E) (n : Nat) : Prop :=
  match (x.run n).world.heap.phase with
  | .idle => OnlyTelling (x.run n).collectionTasks
  | .tracing _ => ∃ b roots rest later, x.Gathers b roots rest n ∧ OnlyTelling later ∧
      (x.run n).collectionTasks =
        rest.map .traceRoots ++ .markAndSweep :: .letGo :: .conclude :: later
  | .dropping .. => ∃ later, OnlyTelling later ∧
      ((x.run n).collectionTasks = .letGo :: .conclude :: later ∨
        (x.run n).collectionTasks = .conclude :: later)

def AliveThroughout (x : Execution E) (y : Handle) (m n : Nat) : Prop :=
  ∀ j, m ≤ j → j ≤ n → (x.run j).world.heap.alive y = true

variable {x : Execution E} {n : Nat} {visited : List Handle}

theorem progresses_idle (phase : (x.run n).world.heap.phase = .idle) :
    x.Progresses n ↔ OnlyTelling (x.run n).collectionTasks := by
  simp only [Progresses, phase]

theorem progresses_tracing (phase : (x.run n).world.heap.phase = .tracing visited) :
    x.Progresses n ↔ ∃ b roots rest later, x.Gathers b roots rest n ∧ OnlyTelling later ∧
      (x.run n).collectionTasks =
        rest.map .traceRoots ++ .markAndSweep :: .letGo :: .conclude :: later := by
  simp only [Progresses, phase]

theorem progresses_dropping {marked reclaimed : Nat}
    (phase : (x.run n).world.heap.phase = .dropping marked reclaimed) :
    x.Progresses n ↔ ∃ later, OnlyTelling later ∧
      ((x.run n).collectionTasks = .letGo :: .conclude :: later ∨
        (x.run n).collectionTasks = .conclude :: later) := by
  simp only [Progresses, phase]

theorem Gathers.succ {b : Nat} {roots rest rest' : List RootSet}
    (gathers : x.Gathers b roots rest n)
    (phase : (x.run (n + 1)).world.heap.phase = .tracing visited)
    (traced : ∀ r ∈ rest, r ∈ rest' ∨ (x.run n).AtTask (.traceRoots r)) :
    x.Gathers b roots rest' (n + 1) := by
  refine ⟨gathers.begins, Nat.lt_succ_of_lt gathers.before, ?_, ?_⟩
  · intro i after le
    rcases Nat.le_succ_iff.mp le with before | rfl
    · exact gathers.tracing i after before
    · exact Heap.tracing_of_phase phase
  · intro r mem
    rcases gathers.traced r mem with left | ⟨j, after, before, next⟩
    · rcases traced r left with still | next
      · exact Or.inl still
      · exact Or.inr ⟨n, gathers.before, Nat.lt_succ_self n, next⟩
    · exact Or.inr ⟨j, after, Nat.lt_succ_of_lt before, next⟩

theorem Progresses.quiet (progresses : x.Progresses n) (vs : List Handle)
    (tasks : (x.run (n + 1)).collectionTasks = (x.run n).collectionTasks)
    (phase : (x.run (n + 1)).world.heap.phase = ((x.run n).world.heap.visitRoots vs).phase) :
    x.Progresses (n + 1) := by
  cases before : (x.run n).world.heap.phase with
  | idle =>
    have after : (x.run (n + 1)).world.heap.phase = .idle := by
      rw [phase]
      simp [Heap.visitRoots, before]
    rw [progresses_idle before] at progresses
    rwa [progresses_idle after, tasks]
  | tracing visited =>
    have after : (x.run (n + 1)).world.heap.phase = .tracing (vs.reverse ++ visited) := by
      rw [phase, Heap.visitRoots_phase before]
    rw [progresses_tracing before] at progresses
    obtain ⟨b, roots, rest, later, gathers, telling, left⟩ := progresses
    rw [progresses_tracing after, tasks]
    exact ⟨b, roots, rest, later, gathers.succ after fun r mem => Or.inl mem, telling, left⟩
  | dropping marked reclaimed =>
    have after : (x.run (n + 1)).world.heap.phase = .dropping marked reclaimed := by
      rw [phase]
      simp [Heap.visitRoots, before]
    rw [progresses_dropping before] at progresses
    rwa [progresses_dropping after, tasks]

theorem Progresses.begins (progresses : x.Progresses n) {roots : List RootSet}
    (begins : (x.run n).Begins roots)
    (tasks : (x.run (n + 1)).collectionTasks =
      Procedure.collection roots ++ (x.run n).collectionTasks)
    (heap : (x.run (n + 1)).world.heap = (x.run n).world.heap.beginTracing) :
    x.Progresses (n + 1) := by
  have before : (x.run n).world.heap.phase = .idle := by
    simpa [Heap.collecting] using begins.2
  have after : (x.run (n + 1)).world.heap.phase = .tracing [] := by
    rw [heap]
    rfl
  rw [progresses_idle before] at progresses
  rw [progresses_tracing after]
  refine ⟨n, roots, roots, roots.map .traceComplete ++ (x.run n).collectionTasks, ?_, ?_, ?_⟩
  · refine ⟨begins, Nat.lt_succ_self n, ?_, fun r mem => Or.inl mem⟩
    intro i lt le
    obtain rfl : i = n + 1 := by omega
    exact Heap.tracing_of_phase after
  · intro t mem
    rcases List.mem_append.mp mem with own | outer
    · obtain ⟨r, _, rfl⟩ := List.mem_map.mp own
      exact ⟨r, rfl⟩
    · exact progresses t outer
  · rw [tasks, Procedure.collection]
    simp

section Work

variable {env : Surroundings} {p : Progress} {t : Task Obj} {rest : List (Task Obj)}

theorem Progresses.works_tracing (progresses : x.Progresses n)
    (before : (x.run n).world.heap.phase = .tracing visited)
    (tasks : (x.run n).collectionTasks = t :: rest) (next : (x.run n).AtTask t)
    (left : (x.run (n + 1)).collectionTasks =
      collectionTasksOf (t.run env (x.run n).world p).first ++ rest)
    (world : (x.run (n + 1)).world = (t.run env (x.run n).world p).world) :
    x.Progresses (n + 1) := by
  rw [progresses_tracing before] at progresses
  obtain ⟨b, roots, sets, later, gathers, telling, listed⟩ := progresses
  rw [tasks] at listed
  rcases sets with _ | ⟨r, sets⟩
  · obtain ⟨rfl, rfl⟩ := List.cons.inj listed
    have after : ∃ marked reclaimed,
        (x.run (n + 1)).world.heap.phase = .dropping marked reclaimed := by
      rw [world, run_markAndSweep before]
      exact ⟨_, _, rfl⟩
    obtain ⟨marked, reclaimed, after⟩ := after
    rw [progresses_dropping after]
    exact ⟨later, telling, Or.inl left⟩
  · obtain ⟨rfl, rfl⟩ := List.cons.inj listed
    have ran := run_traceRoots env (x.run n).world p r
    have after : (x.run (n + 1)).world.heap.phase =
        .tracing ((r.reported (x.run n).world).reverse ++ visited) := by
      rw [world, ran.2, Heap.visitRoots_phase before]
    rw [progresses_tracing after]
    refine ⟨b, roots, sets, later, gathers.succ after ?_, telling, ?_⟩
    · intro q mem
      rcases List.mem_cons.mp mem with rfl | still
      · exact Or.inr next
      · exact Or.inl still
    · rw [left, ran.1]
      rfl

theorem Progresses.works_dropping (progresses : x.Progresses n) {marked reclaimed : Nat}
    (before : (x.run n).world.heap.phase = .dropping marked reclaimed)
    (tasks : (x.run n).collectionTasks = t :: rest)
    (left : (x.run (n + 1)).collectionTasks =
      collectionTasksOf (t.run env (x.run n).world p).first ++ rest)
    (world : (x.run (n + 1)).world = (t.run env (x.run n).world p).world) :
    x.Progresses (n + 1) := by
  rw [progresses_dropping before] at progresses
  obtain ⟨later, telling, listed⟩ := progresses
  rw [tasks] at listed
  rcases listed with listed | listed
  · obtain ⟨rfl, rfl⟩ := List.cons.inj listed
    have ran := run_letGo env (x.run n).world p
    have after : (x.run (n + 1)).world.heap.phase = .dropping marked reclaimed := by
      rw [world, ran.2, before]
    rw [progresses_dropping after, left]
    refine ⟨later, telling, ?_⟩
    rcases ran.1 with ended | again
    · exact Or.inr (by rw [ended]; rfl)
    · exact Or.inl (by rw [again]; rfl)
  · obtain ⟨rfl, rfl⟩ := List.cons.inj listed
    have after : (x.run (n + 1)).world.heap.phase = .idle := by
      rw [world]
      simp only [Task.run, Heap.conclude, before]
    rw [progresses_idle after, left]
    exact telling

theorem Progresses.works_idle (progresses : x.Progresses n)
    (before : (x.run n).world.heap.phase = .idle)
    (tasks : (x.run n).collectionTasks = t :: rest)
    (left : (x.run (n + 1)).collectionTasks =
      collectionTasksOf (t.run env (x.run n).world p).first ++ rest)
    (world : (x.run (n + 1)).world = (t.run env (x.run n).world p).world) :
    x.Progresses (n + 1) := by
  rw [progresses_idle before, tasks] at progresses
  obtain ⟨r, rfl⟩ := progresses t List.mem_cons_self
  have ran := run_traceComplete env (x.run n).world p r
  have after : (x.run (n + 1)).world.heap.phase = .idle := by rw [world, ran.2, before]
  rw [progresses_idle after, left, ran.1, List.nil_append]
  exact fun u mem => progresses u (List.mem_cons_of_mem _ mem)

end Work

theorem Fresh.progresses (fresh : x.Fresh) : x.Progresses 0 := by
  obtain ⟨world, state, a, threshold, empty, rfl⟩ := fresh
  have idle : ((start world state a : Execution E).run 0).world.heap.phase = .idle :=
    congrArg Heap.phase empty
  rw [progresses_idle idle]
  exact fun t mem => nomatch mem

theorem run_progresses (fresh : x.Fresh) (n : Nat) : x.Progresses n := by
  induction n with
  | zero => exact fresh.progresses
  | succ n ih =>
    rcases run_succ_cases x n with same | stepped
    · exact ih.quiet [] (by rw [same]) (by rw [same, Heap.visitRoots_nil])
    · cases step_collector stepped with
      | quiet vs tasks phase => exact ih.quiet vs tasks phase
      | begins begins tasks heap => exact ih.begins begins tasks heap
      | works tasks next _ left world =>
        cases before : (x.run n).world.heap.phase with
        | idle => exact ih.works_idle before tasks left world
        | tracing visited => exact ih.works_tracing before tasks next left world
        | dropping => exact ih.works_dropping before tasks left world

theorem Sweeps.gathered (fresh : x.Fresh) {l : Nat} (sweeps : (x.run l).Sweeps visited) :
    ∃ b roots, b < l ∧ (x.run b).Begins roots ∧
      (∀ i, b < i → i ≤ l → (x.run i).world.heap.tracing = true) ∧
      ∀ r ∈ roots, ∃ j, b < j ∧ x.Traces j l r := by
  have progresses := run_progresses fresh l
  rw [progresses_tracing sweeps.phase] at progresses
  obtain ⟨b, roots, rest, later, gathers, _, tasks⟩ := progresses
  obtain ⟨behind, first⟩ := sweeps.next.collectionTasks trivial
  have all_traced : rest = [] := by
    rcases rest with _ | ⟨r, rest⟩
    · rfl
    · exact nomatch (List.cons.inj (first.symm.trans tasks)).1
  refine ⟨b, roots, gathers.before, gathers.begins, gathers.tracing, fun r mem => ?_⟩
  rcases gathers.traced r mem with left | ⟨j, after, before, next⟩
  · rw [all_traced] at left
    exact nomatch left
  · exact ⟨j, after, next, before, fun i le => gathers.tracing i (Nat.lt_of_lt_of_le after le)⟩

/-- While roots are traced nothing is forgotten of what was visited, until the heap is swept. -/
theorem tracing_succ (here : (x.run n).world.heap.phase = .tracing visited) :
    (∃ vs, (x.run (n + 1)).world.heap.phase = .tracing (vs ++ visited)) ∨
      (x.run n).Sweeps visited := by
  rcases run_succ_cases x n with same | stepped
  · exact Or.inl ⟨[], by rw [same, here]; rfl⟩
  · cases step_collector stepped with
    | quiet vs _ phase => exact Or.inl ⟨vs.reverse, by rw [phase, Heap.visitRoots_phase here]⟩
    | begins begins =>
      have idle := begins.2
      simp [Heap.collecting, here] at idle
    | @works env p t rest _ next ofCollection _ world =>
      cases t with
      | traceRoots r =>
        rw [world, (run_traceRoots env _ p r).2]
        exact Or.inl ⟨_, Heap.visitRoots_phase here _⟩
      | letGo => exact Or.inl ⟨[], by rw [world, (run_letGo env _ p).2, here]; rfl⟩
      | traceComplete r =>
        exact Or.inl ⟨[], by rw [world, (run_traceComplete env _ p r).2, here]; rfl⟩
      | conclude =>
        refine Or.inl ⟨[], ?_⟩
        rw [world]
        simp only [Task.run, Heap.conclude, here]
        rfl
      | markAndSweep => exact Or.inr ⟨next, here⟩
      | _ => exact ofCollection.elim

theorem Sweeps.heap (sweeps : (x.run n).Sweeps visited) :
    (x.run (n + 1)).world.heap =
      (x.run n).world.heap.sweep ((x.run n).world.heap.mark visited.reverse) := by
  obtain ⟨rest, top⟩ := sweeps.next
  obtain ⟨p, _, world⟩ := (x.run_rewrites n).of_task top fun k same => nomatch same
  rw [world, run_markAndSweep sweeps.phase]

theorem Sweeps.not_tracing (sweeps : (x.run n).Sweeps visited) :
    (x.run (n + 1)).world.heap.tracing ≠ true := by
  rw [sweeps.heap]
  exact Bool.false_ne_true

theorem AtTask.traceRoots {r : RootSet} (next : (x.run n).AtTask (.traceRoots r)) :
    (x.run (n + 1)).world.heap = (x.run n).world.heap.visitRoots (r.reported (x.run n).world) := by
  obtain ⟨rest, top⟩ := next
  obtain ⟨p, _, world⟩ := (x.run_rewrites n).of_task top fun k same => nomatch same
  rw [world, (run_traceRoots _ _ p r).2]

/-- What a root set reports when it is traced has been visited when the heap is swept. -/
theorem Traces.mem_visited {j l : Nat} {r : RootSet} (traces : x.Traces j l r)
    (phase : (x.run l).world.heap.phase = .tracing visited) {y : Handle}
    (reported : y ∈ r.reported (x.run j).world) : y ∈ visited := by
  -- From the trace of the root set until the sweep, what has been visited only grows.
  have visits : ∀ i, j < i → i ≤ l →
      ∃ visited, (x.run i).world.heap.phase = .tracing visited ∧ y ∈ visited := by
    intro i after
    induction after with
    | refl =>
      intro _
      obtain ⟨old, here⟩ :=
        Heap.phase_of_tracing (traces.tracing j (Nat.le_refl j) (Nat.le_of_lt traces.before))
      refine ⟨_, by rw [traces.next.traceRoots]; exact Heap.visitRoots_phase here _, ?_⟩
      exact List.mem_append_left _ (List.mem_reverse.mpr reported)
    | @step i after ih =>
      intro le
      obtain ⟨old, here, mem⟩ := ih (Nat.le_of_succ_le le)
      have still := traces.tracing (i + 1) (Nat.le_of_lt (Nat.lt_succ_of_lt after)) le
      rcases tracing_succ here with ⟨vs, there⟩ | sweeps
      · exact ⟨_, there, List.mem_append_right vs mem⟩
      · exact absurd still sweeps.not_tracing
  obtain ⟨visited', same, mem⟩ := visits l traces.before (Nat.le_refl l)
  rw [phase] at same
  rwa [Phase.tracing.inj same]

theorem Sweeps.alive_succ_iff (sweeps : (x.run n).Sweeps visited) {y : Handle} :
    (x.run (n + 1)).world.heap.alive y = true ↔
      (x.run n).world.heap.alive y = true ∧ (x.run n).world.heap.Reachable visited y := by
  rw [sweeps.heap, Heap.sweep_mark_alive, Heap.reachable_reverse]

theorem sweeps_or_slots (x : Execution E) (n : Nat) :
    (∃ visited, (x.run n).Sweeps visited) ∨
      (∃ d, (x.run n).world.heap.Takes d (x.run (n + 1)).world.heap) ∨
      (x.run (n + 1)).world.heap.slots = (x.run n).world.heap.slots := by
  rcases run_succ_cases x n with same | stepped
  · exact Or.inr (Or.inr (by rw [same]))
  · rcases step_heap stepped with ⟨upkeep, _⟩ | ⟨d, takes, _⟩
    · rcases upkeep.slots_or_sweep with slots | ⟨visited, phase, swept⟩
      · exact Or.inr (Or.inr slots)
      · rcases tracing_succ phase with ⟨vs, still⟩ | sweeps
        · rw [swept] at still
          exact nomatch still
        · exact Or.inl ⟨visited, sweeps⟩
    · exact Or.inr (Or.inl ⟨d, takes⟩)

theorem run_succ_keeps_alive (fresh : x.Fresh) {y : Handle}
    (spares : ∀ visited, (x.run n).Sweeps visited → (x.run n).world.heap.Reachable visited y)
    (alive : (x.run n).world.heap.alive y = true) : (x.run (n + 1)).world.heap.alive y = true := by
  rcases sweeps_or_slots x n with ⟨visited, sweeps⟩ | ⟨d, takes⟩ | slots
  · exact sweeps.alive_succ_iff.mpr ⟨alive, spares visited sweeps⟩
  · exact takes.keeps_alive (sound_run fresh n) alive
  · rwa [Heap.alive, Heap.SameSlot.number? (.of_eq slots _)]

/-- A handle stays alive exactly as long as every sweep finds it reachable. -/
theorem aliveThroughout_iff (fresh : x.Fresh) {m n : Nat} {y : Handle}
    (alive : (x.run m).world.heap.alive y = true) : x.AliveThroughout y m n ↔
      ∀ l, m ≤ l → l < n → ∀ visited, (x.run l).Sweeps visited →
        (x.run l).world.heap.Reachable visited y := by
  constructor
  · intro throughout l after before visited sweeps
    have still := throughout (l + 1) (Nat.le_succ_of_le after) before
    exact (sweeps.alive_succ_iff.mp still).2
  · intro reached j after
    induction after with
    | refl => exact fun _ => alive
    | @step j after ih =>
      intro before
      have here := ih (Nat.le_of_succ_le before)
      exact run_succ_keeps_alive fresh (reached j after before) here

end Execution

end HostBridge
