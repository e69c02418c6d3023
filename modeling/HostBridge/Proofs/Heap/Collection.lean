import HostBridge.Proofs.Heap.Effect
import HostBridge.Proofs.Heap.Hook
/-!
# The course of a collection

The tasks of a collection, one kind after the other: tracing the roots, marking and sweeping, letting
the doomed objects go, recording the statistics and telling the root sets. Between them the embedder
is called, and spares the heap.
-/

namespace HostBridge

namespace Heap

variable {Obj : Type}

structure LetsGo (h h' : Heap Obj) : Prop where
  slots : h'.slots = h.slots
  phase : h'.phase = h.phase
  stats : h'.stats = h.stats
  content : ∀ n, n ∉ h.doomed → h'.object? n = h.object? n

/-- `h'` is what a collection makes of `h` if `visited` is what its roots report. -/
structure Collected [Traced Obj] (h : Heap Obj) (visited : List Handle) (h' : Heap Obj) : Prop where
  slots : h'.slots = (h.sweep (h.mark visited)).slots
  phase : h'.phase = .idle
  content : ∀ n, n ∉ (h.sweep (h.mark visited)).doomed → h'.object? n = h.object? n
  stats : h'.stats = ⟨h.stats.collections + 1, (h.mark visited).marked,
    (garbage (h.mark visited).slots).length, h'.liveCount⟩

theorem markAndSweep_of_begun [Traced Obj] (h : Heap Obj) (visited : List Handle) :
    (h.beginTracing.visitRoots visited).markAndSweep = h.sweep (h.mark visited) := by
  simp only [beginTracing, visitRoots, markAndSweep, List.append_nil, List.reverse_reverse]
  rfl

end Heap

namespace World

variable {Obj τ : Type}

theorem dropObject_cases (w : World Obj τ) (n : Nat) (unreferenced : Bool) :
    w.dropObject n unreferenced = (w, []) ∨
      ∃ object, unreferenced = true ∧ w.heap.object? n = some object ∧ w.dropObject n unreferenced =
        ({ w with heap := w.heap.drop n }, [.call (.drop n object)]) := by
  unfold dropObject
  split
  · rename_i found
    exact Or.inr ⟨_, rfl, found, rfl⟩
  · exact Or.inl rfl

end World

namespace Execution

variable {Obj τ : Type} [Facility τ] [Traced Obj] {E : Embedder Obj τ} {s : Suspended E}
  {todo : List (Task Obj)}

theorem visits_of_task {x : Execution E} {t : Task Obj} (at_bridge : x.focus = .bridge s)
    (next : s.todo = t :: todo) (other : ∀ r, t ≠ .traceRoots r) : x.visits 1 = [] := by
  rw [visits_one, reported]
  split
  · simp only [offered, at_bridge, next]
    cases t with
    | traceRoots r => exact absurd rfl (other r)
    | _ => rfl
  · rfl

theorem traceRoots_goesOn {x : Execution E} (obliged : x.Obliged) {r : RootSet}
    (at_bridge : x.focus = .bridge s) (next : s.todo = .traceRoots r :: todo) :
    ∃ n y, x.GoesOn { s with todo } n y ∧
      y.world.heap = x.world.heap.visitRoots (x.visits n) := by
  obtain ⟨env, y, went, world⟩ := task_goesOn at_bridge next (by simp)
  have offered : x.offered = r.reported x.world := by simp only [offered, at_bridge, next]
  cases r with
  | external rootSet =>
    obtain ⟨n, z, returned, heap, _⟩ :=
      call_goesOn (obliged.resumes went.resumes) (k := .traceRoots rootSet) went.at_bridge rfl trivial
    refine ⟨1 + n, z, went.trans returned, ?_⟩
    have nothing : x.visits 1 = [] := by
      rw [visits_one, reported, offered]
      exact ite_self _
    rw [visits_add, nothing, went.resumes.run, heap, world]
    rfl
  | bridge | context | handles =>
    refine ⟨1, y, went, ?_⟩
    rw [visits_one, visitRoots_reported, offered, world]
    rfl

theorem trace_goesOn (rest : List RootSet) {x : Execution E} (obliged : x.Obliged)
    {s : Suspended E} (at_bridge : x.focus = .bridge s)
    (next : s.todo = rest.map .traceRoots ++ todo) :
    ∃ n y, x.GoesOn { s with todo } n y ∧
      y.world.heap = x.world.heap.visitRoots (x.visits n) := by
  induction rest generalizing x s with
  | nil => exact ⟨0, x, .refl at_bridge next, (Heap.visitRoots_nil _).symm⟩
  | cons r rest ih =>
    obtain ⟨m, y, first, heap⟩ := traceRoots_goesOn obliged at_bridge next
    obtain ⟨n, z, later, heap'⟩ := ih (obliged.resumes first.resumes) first.at_bridge rfl
    refine ⟨m + n, z, first.trans later, ?_⟩
    rw [visits_add, first.resumes.run, heap', heap, Heap.visitRoots_append]

theorem letGo_goesOn (ns : List Nat) {x : Execution E} (obliged : x.Obliged) {s : Suspended E}
    (at_bridge : x.focus = .bridge s) (next : s.todo = .letGo :: todo)
    (doomed : x.world.heap.doomed = ns) (deaf : x.world.heap.tracing = false) :
    ∃ n y, x.GoesOn { s with todo } n y ∧ x.visits n = [] ∧
      x.world.heap.LetsGo y.world.heap := by
  induction ns generalizing x s with
  | nil =>
    obtain ⟨env, y, went, world⟩ := task_goesOn at_bridge next (by simp)
    have nothing : x.world.heap.letGo = none := by simp only [Heap.letGo, doomed]
    simp only [Task.run, nothing, List.nil_append] at went world
    refine ⟨1, y, went, visits_of_task at_bridge next (by simp), ?_⟩
    rw [world]
    exact ⟨rfl, rfl, rfl, fun _ _ => rfl⟩
  | cons n ns ih =>
    obtain ⟨env, y, went, world⟩ := task_goesOn at_bridge next (by simp)
    have first : x.world.heap.letGo = some (n, { x.world.heap with doomed := ns }) := by
      simp only [Heap.letGo, doomed]
    have silent : x.visits 1 = [] := visits_of_task at_bridge next (by simp)
    simp only [Task.run, first] at went world
    rcases World.dropObject_cases { x.world with heap := { x.world.heap with doomed := ns } } n
        (!Heap.isHeld { x.world.heap with doomed := ns } n) with kept | ⟨object, _, _, dropped⟩
    · rw [kept] at went world
      obtain ⟨m, z, later, quiet, letsGo⟩ := ih (obliged.resumes went.resumes) went.at_bridge rfl
        (by rw [world]) (by rw [world]; exact deaf)
      refine ⟨1 + m, z, went.trans later, ?_, ?_⟩
      · rw [visits_add, silent, went.resumes.run, quiet, List.nil_append]
      · rw [world] at letsGo
        refine ⟨letsGo.slots, letsGo.phase, letsGo.stats, fun k other => ?_⟩
        exact letsGo.content k fun member => other (by simp [doomed, member])
    · rw [dropped] at went world
      obtain ⟨j, v, returned, heap, hushed⟩ :=
        call_goesOn (obliged.resumes went.resumes) (k := .drop n object) went.at_bridge rfl trivial
      have deaf' : y.world.heap.tracing = false := by rw [world]; exact deaf
      rw [Heap.visitRoots_of_not_tracing deaf', world] at heap
      -- The hook has returned, and the next object has its turn.
      have both := went.trans returned
      obtain ⟨m, z, later, quiet, letsGo⟩ := ih (obliged.resumes both.resumes) both.at_bridge rfl
        (by rw [heap]; rfl) (by rw [heap]; exact deaf)
      refine ⟨1 + j + m, z, both.trans later, ?_, ?_⟩
      · rw [visits_add, visits_add, silent, went.resumes.run, hushed deaf', both.resumes.run, quiet]
        rfl
      · rw [heap] at letsGo
        refine ⟨letsGo.slots, letsGo.phase, letsGo.stats, fun k other => ?_⟩
        rw [doomed, List.mem_cons, not_or] at other
        rw [letsGo.content k other.2, Heap.object?_drop, if_neg (Ne.symm other.1)]
        rfl

theorem traceComplete_goesOn (rest : List RootSet) {x : Execution E} (obliged : x.Obliged)
    {s : Suspended E} (at_bridge : x.focus = .bridge s) (next : s.todo = rest.map .traceComplete)
    (deaf : x.world.heap.tracing = false) :
    ∃ n y, x.GoesOn { s with todo := [] } n y ∧ x.visits n = [] ∧
      y.world.heap = x.world.heap := by
  induction rest generalizing x s with
  | nil => exact ⟨0, x, .refl at_bridge next, rfl, rfl⟩
  | cons r rest ih =>
    obtain ⟨env, y, went, world⟩ := task_goesOn at_bridge next (by simp)
    have silent : x.visits 1 = [] := visits_of_task at_bridge next (by simp)
    have told : ∃ n z, x.GoesOn { s with todo := rest.map .traceComplete } n z ∧
        x.visits n = [] ∧ z.world.heap = x.world.heap := by
      cases r with
      | external rootSet =>
        obtain ⟨n, z, returned, heap, hushed⟩ := call_goesOn (obliged.resumes went.resumes)
          (k := .traceComplete rootSet) went.at_bridge rfl trivial
        have deaf' : y.world.heap.tracing = false := by rw [world]; exact deaf
        refine ⟨1 + n, z, went.trans returned, ?_, ?_⟩
        · rw [visits_add, silent, went.resumes.run, hushed deaf', List.nil_append]
        · rw [heap, Heap.visitRoots_of_not_tracing deaf', world]
          rfl
      | bridge | context | handles => exact ⟨1, y, went, silent, by rw [world]; rfl⟩
    obtain ⟨m, v, first, quiet, heap⟩ := told
    obtain ⟨n, z, later, quiet', heap'⟩ := ih (obliged.resumes first.resumes) first.at_bridge rfl
      (by rw [heap]; exact deaf)
    refine ⟨m + n, z, first.trans later, ?_, heap'.trans heap⟩
    rw [visits_add, quiet, first.resumes.run, quiet', List.nil_append]

theorem conclude_collected {h h' : Heap Obj} {visited : List Handle}
    (letsGo : (h.sweep (h.mark visited)).LetsGo h') : h.Collected visited h'.conclude := by
  have phase : h'.phase =
      .dropping (h.mark visited).marked (Heap.garbage (h.mark visited).slots).length := letsGo.phase
  have stats : h'.stats = h.stats := letsGo.stats
  have concluded : h'.conclude = { h' with
      phase := .idle
      allocated := 0
      stats := ⟨h.stats.collections + 1, (h.mark visited).marked,
        (Heap.garbage (h.mark visited).slots).length, h'.liveCount⟩ } := by
    simp only [Heap.conclude, phase, stats]
  rw [concluded]
  exact ⟨letsGo.slots, rfl, letsGo.content, rfl⟩

theorem collection_ends {x : Execution E} (obliged : x.Obliged) {roots : List RootSet} {h : Heap Obj}
    (at_bridge : x.focus = .bridge s) (next : s.todo = Procedure.collection roots)
    (begun : x.world.heap = h.beginTracing) :
    ∃ n, x.EndsAt n ∧ (x.run n).below = x.below ∧
      (x.run n).focus = .code s.k (s.resume (s.procedure.answer
        { s.progress with count := (Heap.garbage (h.mark (x.visits n)).slots).length })) ∧
      h.Collected (x.visits n) (x.run n).world.heap := by
  rw [Procedure.collection, List.append_assoc] at next
  obtain ⟨n₁, y₁, traced, heap₁⟩ := trace_goesOn roots obliged at_bridge next
  obtain ⟨env, y₂, swept, world₂⟩ := task_goesOn traced.at_bridge rfl (by simp)
  have silent₂ : y₁.visits 1 = [] := visits_of_task traced.at_bridge rfl (by simp)
  rw [begun] at heap₁
  simp only [Task.run, heap₁, Heap.markAndSweep_of_begun, List.nil_append] at swept world₂
  have to₂ := traced.trans swept
  obtain ⟨n₃, y₃, dropped, silent₃, letsGo⟩ := letGo_goesOn _ (obliged.resumes to₂.resumes)
    to₂.at_bridge rfl rfl (by rw [world₂]; rfl)
  have to₃ := to₂.trans dropped
  obtain ⟨env, y₄, concluded, world₄⟩ := task_goesOn to₃.at_bridge rfl (by simp)
  have silent₄ : y₃.visits 1 = [] := visits_of_task to₃.at_bridge rfl (by simp)
  have to₄ := to₃.trans concluded
  have collected : h.Collected (x.visits n₁) y₄.world.heap := by
    rw [world₂] at letsGo
    rw [world₄]
    exact conclude_collected letsGo
  obtain ⟨n₅, y₅, told, silent₅, heap₅⟩ := traceComplete_goesOn roots
    (obliged.resumes to₄.resumes) to₄.at_bridge rfl (by simp [Heap.tracing, collected.phase])
  have to₅ := to₄.trans told
  obtain ⟨ending, focus, below, world⟩ := done_endsAt to₅.at_bridge rfl
  have silent₆ : y₅.visits 1 = [] := by
    rw [visits_one, reported, heap₅, Heap.tracing, collected.phase]
    rfl
  have visited : x.visits (n₁ + 1 + n₃ + 1 + n₅ + 1) = x.visits n₁ := by
    rw [visits_add, to₅.resumes.run, silent₆, visits_add, to₄.resumes.run, silent₅, visits_add,
      to₃.resumes.run, silent₄, visits_add, to₂.resumes.run, silent₃, visits_add,
      traced.resumes.run, silent₂]
    simp only [List.append_nil]
  refine ⟨_, to₅.resumes.endsAt ending, ?_, ?_, ?_⟩
  · rw [run_add, to₅.resumes.run, below, to₅.below]
  · rw [visited, run_add, to₅.resumes.run]
    exact focus
  · rw [visited, run_add, to₅.resumes.run, world, heap₅]
    exact collected

end Execution

end HostBridge
