import HostBridge.Proofs.Heap.Phases
/-!
# How swept objects are dropped

Every object that exists is in a slot, waits for its turn to be dropped or is held by native code.
When the doomed objects have been let go none waits any more, so that a swept object is gone unless
it is held. Letting go ends, and so does a collection, unless one of its hooks never returns.
-/

namespace HostBridge

variable {Obj τ : Type}

namespace Heap

variable {h h' : Heap Obj} {n : Nat}

def Kept (h : Heap Obj) (n : Nat) : Prop := h.Live n ∨ n ∈ h.doomed ∨ h.isHeld n = true

def Accounted (h : Heap Obj) : Prop := ∀ n object, h.object? n = some object → h.Kept n

/-- The object has lost its slot. -/
def Buried (h : Heap Obj) (n : Nat) : Prop := n < h.objects.size ∧ ¬ h.Live n

theorem any_occupant : h.slots.any (·.occupant == some n) = true ↔ h.Live n := by
  rw [Array.any_eq_true]
  constructor
  · rintro ⟨i, inside, here⟩
    refine ⟨i, ?_⟩
    rw [Slot.occupantAt, Array.getElem?_eq_getElem inside]
    exact eq_of_beq here
  · rintro ⟨i, occupant⟩
    obtain ⟨s, slot, occupied⟩ := Option.bind_eq_some_iff.mp occupant
    obtain ⟨inside, rfl⟩ := Array.getElem?_eq_some_iff.mp slot
    exact ⟨i, inside, beq_iff_eq.mpr occupied⟩

theorem unreferenced_iff : h.unreferenced n = true ↔ ¬ h.Kept n := by
  simp only [unreferenced, Kept, Bool.and_eq_true, Bool.not_eq_true', ← Bool.not_eq_true,
    any_occupant, List.contains_iff_mem, not_or]
  tauto

theorem kept_of_referenced (referenced : h.unreferenced n = false) : h.Kept n := by
  by_contra lost
  rw [unreferenced_iff.mpr lost] at referenced
  cases referenced

theorem Accounted.same (accounted : h.Accounted) (slots : h'.slots = h.slots)
    (objects : h'.objects = h.objects) (doomed : h'.doomed = h.doomed) (held : h'.held = h.held) :
    h'.Accounted := by
  intro k object found
  rw [object?, objects] at found
  have kept := accounted k object found
  rwa [Kept, Live, isHeld, slots, doomed, held]

theorem Accounted.visitRoots (accounted : h.Accounted) (xs : List Handle) :
    (h.visitRoots xs).Accounted := by
  rw [visitRoots_eq]
  exact accounted.same rfl rfl rfl rfl

theorem Accounted.conclude (accounted : h.Accounted) : h.conclude.Accounted := by
  rw [conclude_eq]
  exact accounted.same rfl rfl rfl rfl

theorem Accounted.allocate (accounted : h.Accounted) (sound : h.Sound) {x : Handle} {object : Obj}
    (made : h.allocate object = some (x, h')) : h'.Accounted := by
  obtain ⟨i, placed⟩ := sound.allocate made
  have held : h'.held = h.held := by rw [allocate_eq made]
  intro k object' found
  rw [placed.object?] at found
  rw [Kept, placed.live, placed.doomed, isHeld, held]
  split at found
  · rename_i new
    exact Or.inl (Or.inl new)
  · rcases accounted k object' found with live | waits
    · exact Or.inl (Or.inr live)
    · exact Or.inr waits

theorem Accounted.write (accounted : h.Accounted) (sound : h.Sound) (x : Handle) (object : Obj) :
    (h.write x object).Accounted := by
  cases number : h.number? x with
  | none =>
    simp only [Heap.write, number]
    exact accounted
  | some n =>
    have live := live_of_number? number
    intro k object' found
    rw [object?_write number (sound.lt_objects live)] at found
    have kept : h.Kept k := by
      split at found
      · rename_i same
        exact Or.inl (same ▸ live)
      · exact accounted k object' found
    simp only [Heap.write, number]
    exact kept

theorem Accounted.retain (accounted : h.Accounted) {x : Handle}
    (took : h.retain x = some (n, h')) : h'.Accounted := by
  rw [(retain_eq took).2]
  intro k object found
  rcases accounted k object found with live | doomed | held
  · exact Or.inl live
  · exact Or.inr (Or.inl doomed)
  · refine Or.inr (Or.inr ?_)
    simp only [isHeld, List.contains_iff_mem] at held ⊢
    exact List.mem_cons_of_mem _ held

theorem Accounted.sweep [Traced Obj] (accounted : h.Accounted) (settled : h.doomed = [])
    (roots : List Handle) : (h.sweep (h.mark roots)).Accounted := by
  have same := (mark_triColour h roots).same
  intro k object found
  rcases accounted k object found with ⟨i, occupant⟩ | doomed | held
  · by_cases swept : i ∈ garbage (h.mark roots).slots
    · refine Or.inr (Or.inl ?_)
      rw [sweep_doomed same]
      exact List.mem_filterMap.mpr ⟨i, swept, occupant⟩
    · exact Or.inl ((live_sweep same).mpr ⟨i, swept, occupant⟩)
  · rw [settled] at doomed
    cases doomed
  · exact Or.inr (Or.inr held)

theorem accounted_dropObject {w : World Obj τ} {n : Nat} {unreferenced : Bool}
    (others : ∀ k object, k ≠ n → w.heap.object? k = some object → w.heap.Kept k)
    (kept : unreferenced = false → w.heap.Kept n) :
    (w.dropObject n unreferenced).1.heap.Accounted := by
  intro k object found
  cases unreferenced with
  | false =>
    by_cases same : k = n
    · exact same ▸ kept rfl
    · exact others k object same found
  | true =>
    cases content : w.heap.object? n with
    | none =>
      simp only [World.dropObject, content] at found ⊢
      apply others k object _ found
      rintro rfl
      rw [content] at found
      cases found
    | some object' =>
      simp only [World.dropObject, content, object?_drop] at found ⊢
      split at found
      · cases found
      · rename_i other
        exact others k object (Ne.symm other) found

theorem Buried.upkeep [Traced Obj] (buried : h.Buried n) (upkeep : h.Upkeep h') : h'.Buried n := by
  refine ⟨upkeep.size_objects.symm ▸ buried.1, ?_⟩
  rintro ⟨i, occupant⟩
  rcases upkeep.slot i with same | reclaimed
  · exact buried.2 ⟨i, same.1 ▸ occupant⟩
  · rw [reclaimed.2.1] at occupant
    cases occupant

theorem Buried.takes (buried : h.Buried n) (sound : h.Sound) {d : Deposit Obj}
    (takes : h.Takes d h') : h'.Buried n := by
  cases takes with
  | allocated made =>
    obtain ⟨i, placed⟩ := sound.allocate made
    refine ⟨?_, ?_⟩
    · rw [placed.objects, Array.size_push]
      exact Nat.lt_succ_of_lt buried.1
    · rw [placed.live]
      rintro (rfl | live)
      · exact Nat.lt_irrefl _ buried.1
      · exact buried.2 live
  | @written x object =>
    refine ⟨?_, ?_⟩
    · unfold Heap.write
      split
      · rw [Array.size_setIfInBounds]
        exact buried.1
      · exact buried.1
    · rw [Live, slots_eq_of_write]
      exact buried.2

end Heap

theorem Command.perform_doomed [Facility τ] (w : World Obj τ) (c : Command Obj τ) :
    (c.perform w).world.heap.doomed = w.heap.doomed := by
  apply perform_frame Heap.doomed
  · intro _ _ _ _ made
    rw [Heap.allocate_eq made]
  · intro _ _ _
    rw [Heap.write_eq]
  · intro _ _ _ _ took
    rw [(Heap.retain_eq took).2]
  · intro _ _
    rfl

theorem dropObject_doomed (w : World Obj τ) (n : Nat) (unreferenced : Bool) :
    (w.dropObject n unreferenced).1.heap.doomed = w.heap.doomed := by
  rw [World.dropObject_eq]

theorem Heap.visitRoots_doomed (h : Heap Obj) (xs : List Handle) :
    (h.visitRoots xs).doomed = h.doomed := by
  rw [Heap.visitRoots_eq]

theorem Procedure.start_doomed (w : World Obj τ) (p : Procedure) :
    (start w p).world.heap.doomed = w.heap.doomed := by
  cases p with
  | release n => exact dropObject_doomed _ _ _
  | collect roots =>
    simp only [start]
    split <;> rfl
  | _ => rfl

theorem Task.run_doomed [Traced Obj] {t : Task Obj} (no_sweep : t ≠ .markAndSweep)
    (no_letGo : t ≠ .letGo) (env : Surroundings) (w : World Obj τ) (p : Progress) :
    (t.run env w p).world.heap.doomed = w.heap.doomed := by
  by_cases other : ¬ t.OfHeap
  · rw [run_heap other]
  · cases t with
    | traceRoots r => rw [(run_traceRoots env w p r).2, Heap.visitRoots_doomed]
    | markAndSweep => exact absurd rfl no_sweep
    | letGo => exact absurd rfl no_letGo
    | conclude =>
      simp only [run]
      rw [Heap.conclude_eq]
    | _ => exact absurd (fun h => h) other

theorem run_letGo_cases [Traced Obj] (env : Surroundings) (w : World Obj τ) (p : Progress) :
    (w.heap.doomed = [] ∧ Task.run env w p .letGo = ⟨w, p, [], []⟩) ∨
      ∃ n rest dropped, w.heap.doomed = n :: rest ∧
        (Task.run env w p .letGo).world.heap.doomed = rest ∧
        (Task.run env w p .letGo).first = dropped ++ [.letGo] ∧
        (dropped = [] ∨ ∃ object, dropped = [.call (.drop n object)]) := by
  cases doomed : w.heap.doomed with
  | nil => exact Or.inl ⟨rfl, by simp [Task.run, Heap.letGo, doomed]⟩
  | cons n rest =>
    let popped : Heap Obj := { w.heap with doomed := rest }
    refine Or.inr ⟨n, rest, ({ w with heap := popped }.dropObject n (!popped.isHeld n)).2, rfl,
      ?_, ?_, ?_⟩
    · simp only [Task.run, Heap.letGo, doomed, dropObject_doomed]
    · simp only [Task.run, Heap.letGo, doomed]
      rfl
    · rcases World.dropObject_cases { w with heap := popped } n (!popped.isHeld n) with
        kept | ⟨object, _, _, dropped⟩
      · exact Or.inl (congrArg Prod.snd kept)
      · exact Or.inr ⟨object, congrArg Prod.snd dropped⟩

theorem Command.accounted [Facility τ] {w : World Obj τ} (sound : w.heap.Sound)
    (accounted : w.heap.Accounted) (c : Command Obj τ) :
    (c.perform w).world.heap.Accounted := by
  by_cases other : ¬ c.OfHeap
  · rwa [perform_heap other]
  · cases c with
    | allocate object =>
      simp only [perform]
      split
      · rename_i made
        exact accounted.allocate sound made
      · exact accounted
    | write y object => exact accounted.write sound y object
    | retain y =>
      simp only [perform]
      split
      · rename_i took
        exact accounted.retain took
      · exact accounted
    | setThreshold => exact accounted
    | _ => exact absurd (fun h => h) other

theorem Procedure.accounted {w : World Obj τ} (accounted : w.heap.Accounted) (p : Procedure) :
    (start w p).world.heap.Accounted := by
  by_cases other : ¬ p.OfHeap
  · rwa [start_heap other]
  · cases p with
    | release k =>
      refine Heap.accounted_dropObject ?_ ?_
      · intro i object differs found
        rcases accounted i object found with live | doomed | held
        · exact Or.inl live
        · exact Or.inr (Or.inl doomed)
        · refine Or.inr (Or.inr ?_)
          simp only [Heap.isHeld, Heap.release, List.contains_iff_mem] at held ⊢
          exact (List.mem_erase_of_ne differs).mpr held
      · exact Heap.kept_of_referenced
    | collect roots =>
      simp only [start]
      split
      · exact accounted
      · exact accounted.same rfl rfl rfl rfl
    | _ => exact absurd (fun h => h) other

theorem letGo_accounted [Traced Obj] {w : World Obj τ} (accounted : w.heap.Accounted)
    (env : Surroundings) (p : Progress) : (Task.run env w p .letGo).world.heap.Accounted := by
  simp only [Task.run]
  split
  · rename_i k heap first
    obtain ⟨doomed, same⟩ := Heap.letGo_eq first
    refine Heap.accounted_dropObject ?_ ?_
    · intro i object differs found
      have before : w.heap.object? i = some object := by
        rw [same] at found
        exact found
      rw [Heap.Kept, same]
      rcases accounted i object before with live | waits | held
      · exact Or.inl live
      · rw [doomed] at waits
        exact Or.inr (Or.inl ((List.mem_cons.mp waits).resolve_left differs))
      · exact Or.inr (Or.inr held)
    · intro held
      exact Or.inr (Or.inr (by simpa using held))
  · exact accounted

theorem Task.run_dropping [Traced Obj] {t : Task Obj} (other : t ≠ .conclude) (env : Surroundings)
    {w : World Obj τ} (p : Progress) {marked reclaimed : Nat}
    (phase : w.heap.phase = .dropping marked reclaimed) :
    (t.run env w p).world.heap.phase = .dropping marked reclaimed := by
  by_cases plain : ¬ t.OfHeap
  · rw [run_heap plain, phase]
  · cases t with
    | traceRoots r => simp [(run_traceRoots env w p r).2, Heap.visitRoots, phase]
    | markAndSweep => simp [run, Heap.markAndSweep, phase]
    | letGo => rw [(run_letGo env w p).2, phase]
    | conclude => exact absurd rfl other
    | _ => exact absurd id plain

def Item.part? : Item Obj → Option (Task Obj)
  | task t => if t.OfCollection then some t else none
  | code _ => none

theorem Item.eq_task_of_part? {i : Item Obj} {t : Task Obj} (part : i.part? = some t) :
    i = .task t := by
  cases i with
  | code => cases part
  | task u =>
    simp only [part?] at part
    split at part
    · rw [Option.some.inj part]
    · cases part

theorem filterMap_part?_tasks (ts : List (Task Obj)) :
    (ts.map Item.task).filterMap Item.part? = collectionTasksOf ts := by
  rw [List.filterMap_map, collectionTasksOf, ← List.filterMap_eq_filter]
  congr 1
  funext t
  by_cases part : t.OfCollection <;> simp [Item.part?, part, Option.guard]

namespace Execution

variable [Facility τ] {E : Embedder Obj τ} {x : Execution E} {m n : Nat}

theorem collectionTasks_of_task {t : Task Obj} {rest : List (Item Obj)}
    (top : x.stack = .task t :: rest) (part : t.OfCollection) :
    x.collectionTasks = t :: rest.filterMap Item.part? := by
  obtain ⟨s, todo, at_bridge, next⟩ := AtTask.bridge ⟨rest, top⟩
  have items : ∀ u : Suspended E, u.items.filterMap Item.part? = collectionTasksOf u.todo := by
    intro u
    rw [Suspended.items, List.filterMap_append, filterMap_part?_tasks]
    exact List.append_nil _
  rw [stack_of_bridge at_bridge, next] at top
  have behind := (List.cons.inj top).2
  rw [List.append_eq] at behind
  rw [collectionTasks, frames_of_bridge at_bridge, List.flatMap_cons, next,
    collectionTasksOf_cons part, ← behind, List.filterMap_append, filterMap_part?_tasks,
    List.filterMap_cons_none rfl, List.filterMap_flatMap]
  simp only [items, List.cons_append]

variable [Traced Obj]

def Settles (x : Execution E) : Prop :=
  x.world.heap.doomed = [] ∨
    (∃ marked reclaimed, x.world.heap.phase = .dropping marked reclaimed) ∧ .task .letGo ∈ x.stack

omit [Traced Obj] in
theorem Settles.same {y : Execution E} (settles : x.Settles)
    (doomed : y.world.heap.doomed = x.world.heap.doomed)
    (phase : ∀ marked reclaimed, x.world.heap.phase = .dropping marked reclaimed →
      y.world.heap.phase = .dropping marked reclaimed)
    (stack : .task .letGo ∈ x.stack → .task .letGo ∈ y.stack) : y.Settles := by
  rcases settles with none_waits | ⟨⟨marked, reclaimed, dropping⟩, mem⟩
  · exact Or.inl (doomed.trans none_waits)
  · exact Or.inr ⟨⟨marked, reclaimed, phase marked reclaimed dropping⟩, stack mem⟩

theorem AtTask.doomed_of_conclude (fresh : x.Fresh) (settles : (x.run n).Settles)
    (next : (x.run n).AtTask .conclude) : (x.run n).world.heap.doomed = [] := by
  obtain ⟨rest, top⟩ := next
  rcases settles with none_waits | ⟨⟨marked, reclaimed, phase⟩, mem⟩
  · exact none_waits
  · exfalso
    cases run_phased fresh n with
    | idle idle =>
      rw [Heap.collecting, phase] at idle
      cases idle
    | busy above below _ stack before none_early =>
      rw [top] at stack
      rcases above with _ | ⟨i, above⟩
      · obtain ⟨_, rfl⟩ := List.cons.inj stack
        rw [top] at mem
        rcases List.mem_cons.mp mem with same | older
        · cases same
        · exact none_early _ older trivial
      · obtain ⟨rfl, _⟩ := List.cons.inj stack
        exact (before _ List.mem_cons_self).2 rfl

theorem letGo_of_sweep (fresh : x.Fresh) {rest : List (Item Obj)}
    (top : (x.run n).stack = .task .markAndSweep :: rest) : .task .letGo ∈ rest := by
  have next : (x.run n).AtTask .markAndSweep := ⟨rest, top⟩
  obtain ⟨visited, sweeps⟩ := next.sweeps fresh
  have progresses := run_progresses fresh n
  rw [progresses_tracing sweeps.phase] at progresses
  obtain ⟨_, _, roots, later, _, _, tasks⟩ := progresses
  rw [collectionTasks_of_task top trivial] at tasks
  cases roots with
  | nil =>
    have behind : .letGo ∈ rest.filterMap Item.part? := by
      rw [(List.cons.inj tasks).2]
      exact List.mem_cons_self
    obtain ⟨i, mem, part⟩ := List.mem_filterMap.mp behind
    exact Item.eq_task_of_part? part ▸ mem
  | cons => cases (List.cons.inj tasks).1

theorem Settles.work (fresh : x.Fresh) (settles : (x.run n).Settles) {t : Task Obj} {p : Progress}
    {env : Surroundings} {rest : List (Item Obj)} (top : (x.run n).stack = .task t :: rest)
    (stack : (x.run (n + 1)).stack = (t.run env (x.run n).world p).first.map .task ++ rest)
    (world : (x.run (n + 1)).world = (t.run env (x.run n).world p).world) :
    (x.run (n + 1)).Settles := by
  have next : (x.run n).AtTask t := ⟨rest, top⟩
  by_cases sweep : t = .markAndSweep
  · subst sweep
    obtain ⟨visited, sweeps⟩ := next.sweeps fresh
    refine Or.inr ⟨?_, ?_⟩
    · rw [sweeps.heap]
      exact ⟨_, _, rfl⟩
    · rw [stack]
      exact List.mem_append_right _ (letGo_of_sweep fresh top)
  by_cases again : t = .letGo
  · subst again
    rcases run_letGo_cases env (x.run n).world p with ⟨none_waits, same⟩ |
      ⟨k, others, dropped, waits, _, first, _⟩
    · rw [same] at world
      exact Or.inl (by rw [world, none_waits])
    · rcases settles with none_waits | ⟨⟨marked, reclaimed, phase⟩, _⟩
      · rw [waits] at none_waits
        cases none_waits
      · refine Or.inr ⟨⟨marked, reclaimed, ?_⟩, ?_⟩
        · rw [world, (run_letGo env (x.run n).world p).2, phase]
        · rw [stack, first]
          simp
  by_cases last : t = .conclude
  · subst last
    have settled := next.doomed_of_conclude fresh settles
    exact Or.inl (by rw [world, Task.run_doomed (by simp) (by simp), settled])
  · refine settles.same ?_ ?_ ?_
    · rw [world, Task.run_doomed sweep again]
    · intro marked reclaimed phase
      rw [world, Task.run_dropping last env p phase]
    · intro mem
      rw [top] at mem
      rcases List.mem_cons.mp mem with same | older
      · exact absurd (Item.task.inj same).symm again
      · exact stack ▸ List.mem_append_right _ older

theorem run_settles (fresh : x.Fresh) (n : Nat) : (x.run n).Settles := by
  induction n with
  | zero =>
    obtain ⟨world, state, a, threshold, empty, rfl⟩ := fresh
    exact Or.inl (congrArg Heap.doomed empty)
  | succ n ih =>
    cases x.run_rewrites n with
    | idle _ stack world =>
      exact ih.same (by rw [world]) (fun _ _ phase => by rw [world, phase]) fun mem => stack ▸ mem
    | @performed c _ stack world =>
      refine ih.same ?_ (fun _ _ phase => ?_) fun mem => stack ▸ mem
      · rw [world, Command.perform_doomed]
      · rw [world, Command.perform_phase, phase]
    | @began k p resume requests stack world =>
      refine ih.same ?_ (fun marked reclaimed phase => ?_) fun mem => ?_
      · rw [world, Procedure.start_doomed]
      · have collecting : (x.run n).world.heap.collecting = true := by
          rw [Heap.collecting, phase]
          rfl
        rw [world, (Procedure.start_items (x.run n).world p fun _ _ => collecting).1, phase]
      · exact stack ▸ List.mem_append_right _ mem
    | @returned k r p rest top stack world =>
      refine ih.same ?_ (fun marked reclaimed phase => ?_) fun mem => ?_
      · rw [world, Call.resume_heap, Heap.visitRoots_doomed]
      · rw [world, Call.resume_heap]
        simp [Heap.visitRoots, phase]
      · rw [top] at mem
        rw [stack]
        exact List.mem_append_right _ (List.mem_of_ne_of_mem (by simp) mem)
    | halted top stack world =>
      refine ih.same (by rw [world]) (fun _ _ phase => by rw [world, phase]) fun mem => ?_
      rw [top] at mem
      cases List.mem_singleton.mp mem
    | called top stack world =>
      refine ih.same (by rw [world]) (fun _ _ phase => by rw [world, phase]) fun mem => ?_
      rw [top] at mem
      rw [stack]
      exact List.mem_cons_of_mem _ (List.mem_of_ne_of_mem (by simp) mem)
    | worked top no_call stack world => exact ih.work fresh top stack world

/-- Only a sweep and the letting go of objects change what waits to be dropped. -/
theorem doomed_succ (no_sweep : ¬ (x.run n).AtTask .markAndSweep)
    (no_letGo : ¬ (x.run n).AtTask .letGo) :
    (x.run (n + 1)).world.heap.doomed = (x.run n).world.heap.doomed := by
  cases x.run_rewrites n with
  | idle _ _ world | halted _ _ world | called _ _ world => rw [world]
  | performed _ _ world => rw [world, Command.perform_doomed]
  | began _ _ world => rw [world, Procedure.start_doomed]
  | returned _ _ world => rw [world, Call.resume_heap, Heap.visitRoots_doomed]
  | @worked t p rest top _ _ world =>
    have other : ∀ u : Task Obj, ¬ (x.run n).AtTask u → t ≠ u := by
      rintro u none rfl
      exact none ⟨rest, top⟩
    rw [world, Task.run_doomed (other _ no_sweep) (other _ no_letGo)]

theorem run_accounted (fresh : x.Fresh) (n : Nat) : (x.run n).world.heap.Accounted := by
  induction n with
  | zero =>
    obtain ⟨world, state, a, threshold, empty, rfl⟩ := fresh
    have nothing : (Heap.withThreshold threshold : Heap Obj).Accounted := by
      intro k object found
      simp [Heap.withThreshold, Heap.object?] at found
    exact empty ▸ nothing
  | succ n ih =>
    cases x.run_rewrites n with
    | idle _ _ world | halted _ _ world | called _ _ world => rwa [world]
    | @performed c _ _ world =>
      rw [world]
      exact Command.accounted (sound_run fresh n) ih c
    | @began k p _ _ _ world =>
      rw [world]
      exact Procedure.accounted ih p
    | returned _ _ world =>
      rw [world, Call.resume_heap]
      exact ih.visitRoots _
    | @worked t p rest top _ _ world =>
      by_cases other : ¬ t.OfHeap
      · rwa [world, Task.run_heap other]
      · cases t with
        | traceRoots r =>
          rw [world, (run_traceRoots _ _ p r).2]
          exact ih.visitRoots _
        | markAndSweep =>
          obtain ⟨visited, sweeps⟩ := AtTask.sweeps fresh ⟨rest, top⟩
          rw [sweeps.heap]
          refine ih.sweep ?_ _
          -- A sweep finds no object waiting: they wait only while the heap is dropping others.
          rcases run_settles fresh n with none_waits | ⟨⟨_, _, phase⟩, _⟩
          · exact none_waits
          · cases sweeps.phase.symm.trans phase
        | letGo =>
          rw [world]
          exact letGo_accounted ih _ p
        | conclude =>
          rw [world]
          exact ih.conclude
        | _ => exact absurd id other

theorem run_buried (fresh : x.Fresh) {k : Nat} (le : m ≤ n)
    (buried : (x.run m).world.heap.Buried k) : (x.run n).world.heap.Buried k := by
  induction le with
  | refl => exact buried
  | @step n le ih =>
    rcases run_succ_cases x n with same | stepped
    · rwa [same]
    · rcases step_heap stepped with ⟨upkeep, _⟩ | ⟨d, takes, _⟩
      · exact ih.upkeep upkeep
      · exact ih.takes (sound_run fresh n) takes

/-- When a collection is concluded, every object that it has swept is gone or held. -/
theorem gone_or_held (fresh : x.Fresh) {k : Nat} (le : m ≤ n)
    (swept : k ∈ (x.run m).world.heap.doomed) (next : (x.run n).AtTask .conclude) :
    (x.run n).world.heap.object? k = none ∨ (x.run n).world.heap.isHeld k = true := by
  have buried := run_buried fresh le ((sound_run fresh m).doomed k swept)
  have settled := next.doomed_of_conclude fresh (run_settles fresh n)
  cases content : (x.run n).world.heap.object? k with
  | none => exact Or.inl rfl
  | some object =>
    rcases run_accounted fresh n k object content with live | doomed | held
    · exact absurd live buried.2
    · rw [settled] at doomed
      cases doomed
    · exact Or.inr held

/-- A hook that a collection calls at `m` or later never returns. -/
def Hangs (x : Execution E) (m : Nat) : Prop :=
  ∃ l h, m ≤ l ∧ Call.OfCollection h ∧ (x.run l).AtTask (.call h) ∧ ∀ i, (x.run l).Unfinished i

theorem Hangs.earlier (hangs : x.Hangs n) (le : m ≤ n) : x.Hangs m := by
  obtain ⟨l, h, after, hook⟩ := hangs
  exact ⟨l, h, Nat.le_trans le after, hook⟩

theorem call_finishes_or_hangs {h : Call Obj} (next : (x.run m).AtTask (.call h))
    (hook : h.OfCollection) : (∃ j, (x.run m).FinishesAt j) ∨ x.Hangs m := by
  by_cases endless : ∀ i, (x.run m).Unfinished i
  · exact Or.inr ⟨m, h, Nat.le_refl m, hook, next, endless⟩
  · obtain ⟨i, past⟩ := not_forall.mp endless
    obtain ⟨j, _, finishes⟩ := exists_finishesAt past
    exact Or.inl ⟨j, finishes⟩

theorem part_finishes_or_hangs {t : Task Obj} (next : (x.run m).AtTask t) (part : t.OfCollection)
    (other : t ≠ .letGo) : (∃ j, (x.run m).FinishesAt j) ∨ x.Hangs m := by
  obtain ⟨rest, top⟩ := next
  have no_call : ∀ k, t ≠ .call k := by
    rintro k rfl
    exact part
  obtain ⟨p, stack, _⟩ := (x.run_rewrites m).of_task top no_call
  have brings : (t.run ⟨E.types, E.alive (x.run m).state (x.run m).world.heap⟩
        (x.run m).world p).first = [] ∨ ∃ h : Call Obj, h.OfCollection ∧
      (t.run ⟨E.types, E.alive (x.run m).state (x.run m).world.heap⟩
        (x.run m).world p).first = [.call h] := by
    cases t with
    | traceRoots r | traceComplete r =>
      cases r with
      | external r =>
        refine Or.inr ⟨_, ?_, rfl⟩
        exact trivial
      | bridge | context | handles => exact Or.inl rfl
    | markAndSweep | conclude => exact Or.inl rfl
    | letGo => exact absurd rfl other
    | _ => exact part.elim
  rcases brings with nothing | ⟨h, hook, call⟩
  · rw [nothing] at stack
    exact Or.inl ⟨_, (InTurn.nil (m + 1)).finishesAt top stack⟩
  · rw [call] at stack
    have next : (x.run (m + 1)).AtTask (.call h) := ⟨rest, stack⟩
    rcases call_finishes_or_hangs next hook with ⟨j, finishes⟩ | hangs
    · have turns : x.InTurn (m + 1) [.call h] (m + 1 + j) := .cons next finishes (.nil _)
      exact Or.inl ⟨_, turns.finishesAt top stack⟩
    · exact Or.inr (hangs.earlier (Nat.le_succ m))

theorem behind_letGo (fresh : x.Fresh) {rest : List (Item Obj)}
    (top : (x.run n).stack = .task .letGo :: rest) :
    ∃ later, OnlyTelling later ∧ rest.filterMap Item.part? = .conclude :: later := by
  have progresses := run_progresses fresh n
  have tasks := collectionTasks_of_task top trivial
  cases phase : (x.run n).world.heap.phase with
  | idle =>
    rw [progresses_idle phase, tasks] at progresses
    obtain ⟨r, same⟩ := progresses .letGo List.mem_cons_self
    cases same
  | tracing visited =>
    rw [progresses_tracing phase, tasks] at progresses
    obtain ⟨_, _, left, _, _, _, listed⟩ := progresses
    rcases left with _ | ⟨r, left⟩ <;> cases (List.cons.inj listed).1
  | dropping =>
    rw [progresses_dropping phase, tasks] at progresses
    obtain ⟨later, telling, listed | listed⟩ := progresses
    · exact ⟨later, telling, (List.cons.inj listed).2⟩
    · cases (List.cons.inj listed).1

/-- While a drop hook runs no other object is let go, and none is swept. -/
theorem doomed_of_hook (fresh : x.Fresh) {h : Call Obj} {rest : List (Item Obj)}
    (turns : x.InTurn m [.call h] n)
    (top : (x.run m).stack = .task (.call h) :: .task .letGo :: rest)
    (waits : .task .conclude ∈ rest) :
    (x.run n).world.heap.doomed = (x.run m).world.heap.doomed := by
  have no_stage : x.stages m n = [] :=
    turns.stages fresh top (List.mem_cons_of_mem _ waits)
  have kept : ∀ i, m ≤ i → i ≤ n →
      (x.run i).world.heap.doomed = (x.run m).world.heap.doomed := by
    intro i after
    induction after with
    | refl => exact fun _ => rfl
    | @step i after ih =>
      intro le
      rw [← ih (Nat.le_of_succ_le le)]
      apply doomed_succ
      · exact not_atTask_of_stages no_stage after le rfl
      · -- Another letting go would stand above the one that has called the hook.
        rintro ⟨later, here⟩
        obtain ⟨pre, stack, more⟩ := turns.stack_within top after (Nat.le_of_succ_le le)
        obtain ⟨it, pre, rfl⟩ := List.exists_cons_of_ne_nil (more le)
        obtain ⟨_, rfl⟩ := List.cons.inj (here.symm.trans stack)
        obtain ⟨later', telling, listed⟩ := behind_letGo fresh here
        have again : Task.letGo ∈ Task.conclude :: later' := by
          rw [← listed]
          exact List.mem_filterMap.mpr ⟨_, List.mem_append_right pre List.mem_cons_self, rfl⟩
        rcases List.mem_cons.mp again with same | told
        · cases same
        · obtain ⟨r, same⟩ := telling _ told
          cases same
  exact kept n turns.le (Nat.le_refl n)

/-- All doomed objects are let go, or a drop hook never returns. -/
theorem letGo_finishes_or_hangs (fresh : x.Fresh) {rest : List (Item Obj)} (waiting : List Nat)
    (doomed : (x.run m).world.heap.doomed = waiting)
    (top : (x.run m).stack = .task .letGo :: rest) (waits : .task .conclude ∈ rest) :
    (∃ j, (x.run m).FinishesAt j) ∨ x.Hangs m := by
  induction waiting generalizing m with
  | nil =>
    obtain ⟨p, stack, _⟩ := (x.run_rewrites m).of_task top fun k h => nomatch h
    rcases run_letGo_cases _ (x.run m).world p with ⟨_, same⟩ | ⟨_, _, _, some, _⟩
    · rw [same] at stack
      exact Or.inl ⟨_, (InTurn.nil (m + 1)).finishesAt top stack⟩
    · rw [doomed] at some
      cases some
  | cons k waiting ih =>
    obtain ⟨p, stack, world⟩ := (x.run_rewrites m).of_task top fun k h => nomatch h
    rcases run_letGo_cases _ (x.run m).world p with ⟨none, _⟩ |
      ⟨_, _, dropped, some, left, first, hooks⟩
    · rw [doomed] at none
      cases none
    · obtain ⟨rfl, rfl⟩ := List.cons.inj (doomed.symm.trans some)
      rw [← world] at left
      rw [first] at stack
      -- The hook of the object has its turn, if there is one, and then the others.
      have hooked : (∃ l, x.InTurn (m + 1) dropped l ∧
          (x.run l).world.heap.doomed = waiting ∧ m < l) ∨ x.Hangs m := by
        rcases hooks with rfl | ⟨object, rfl⟩
        · exact Or.inl ⟨m + 1, .nil _, left, Nat.lt_succ_self m⟩
        · have next : (x.run (m + 1)).AtTask (.call (.drop k object)) := ⟨_, stack⟩
          rcases call_finishes_or_hangs next trivial with ⟨j, finishes⟩ | hangs
          · have turns : x.InTurn (m + 1) [.call (.drop k object)] (m + 1 + j) :=
              .cons next finishes (.nil _)
            refine Or.inl ⟨m + 1 + j, turns, ?_, by omega⟩
            rw [doomed_of_hook fresh turns stack waits, left]
          · exact Or.inr (hangs.earlier (Nat.le_succ m))
      rcases hooked with ⟨l, turns, left, late⟩ | hangs
      · rw [List.map_append, List.append_assoc] at stack
        have here := turns.stack stack
        rcases ih left here with ⟨j, finishes⟩ | hangs
        · have all := turns.append (.cons ⟨rest, here⟩ finishes (.nil _))
          refine Or.inl ⟨_, all.finishesAt top ?_⟩
          rw [stack, List.map_append, List.append_assoc]
        · exact Or.inr (hangs.earlier (Nat.le_of_lt late))
      · exact Or.inr hangs

end Execution

end HostBridge
