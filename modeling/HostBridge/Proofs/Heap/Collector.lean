import HostBridge.Proofs.Execution.Extent
import HostBridge.Proofs.Execution.Stack
import HostBridge.Proofs.Heap.Change
/-!
# The tasks of the collection in progress

At any moment one collection at most works on the heap, and the tasks of collections that are left to
do stand in the frames in the order in which they will be done. A step leaves them alone, begins a
collection or does the first of them.
-/

namespace HostBridge

variable {Obj τ : Type} [Facility τ] {E : Embedder Obj τ}

def collectionTasksOf (todo : List (Task Obj)) : List (Task Obj) :=
  todo.filter fun t => t.OfCollection

omit [Facility τ] in
theorem collectionTasksOf_other {todo : List (Task Obj)} (other : ∀ t ∈ todo, ¬ t.OfCollection) :
    collectionTasksOf todo = [] := by
  apply List.filter_eq_nil_iff.mpr
  intro t member
  have none := other t member
  simpa using none

omit [Facility τ] in
theorem collectionTasksOf_append (first later : List (Task Obj)) :
    collectionTasksOf (first ++ later) = collectionTasksOf first ++ collectionTasksOf later :=
  List.filter_append ..

omit [Facility τ] in
theorem collectionTasksOf_cons {t : Task Obj} (ofCollection : t.OfCollection)
    (todo : List (Task Obj)) : collectionTasksOf (t :: todo) = t :: collectionTasksOf todo := by
  simp [collectionTasksOf, ofCollection]

omit [Facility τ] in
theorem collectionTasksOf_collection (roots : List RootSet) :
    collectionTasksOf (Procedure.collection roots : List (Task Obj)) =
      Procedure.collection roots := by
  apply List.filter_eq_self.mpr
  intro t member
  simp only [Procedure.collection, List.mem_append, List.mem_map, List.mem_cons, List.not_mem_nil,
    or_false] at member
  rcases member with (⟨r, _, rfl⟩ | rfl | rfl | rfl) | ⟨r, _, rfl⟩ <;> rfl

theorem Command.perform_phase (w : World Obj τ) (c : Command Obj τ) :
    (c.perform w).world.heap.phase = w.heap.phase := by
  apply perform_frame Heap.phase
  · intro _ _ _ _ made
    rw [Heap.allocate_eq made]
  · intro _ _ _
    rw [Heap.write_eq]
  · intro _ _ _ _ took
    rw [(Heap.retain_eq took).2]
  · intro _ _
    rfl

namespace Execution

def collectionTasks (x : Execution E) : List (Task Obj) :=
  x.frames.flatMap fun s => collectionTasksOf s.todo

def Begins (x : Execution E) (roots : List RootSet) : Prop :=
  (∃ k resume, x.Requests k (.collect roots) resume) ∧ x.world.heap.collecting = false

variable [Traced Obj]

inductive CollectorStep (x y : Execution E) : Prop
  | quiet (vs : List Handle) (tasks : y.collectionTasks = x.collectionTasks)
      (phase : y.world.heap.phase = (x.world.heap.visitRoots vs).phase)
  | begins {roots : List RootSet} (begins : x.Begins roots)
      (tasks : y.collectionTasks = Procedure.collection roots ++ x.collectionTasks)
      (heap : y.world.heap = x.world.heap.beginTracing)
  | works {env : Surroundings} {p : Progress} {t : Task Obj} {rest : List (Task Obj)}
      (tasks : x.collectionTasks = t :: rest) (next : x.AtTask t) (ofCollection : t.OfCollection)
      (left : y.collectionTasks = collectionTasksOf (t.run env x.world p).first ++ rest)
      (world : y.world = (t.run env x.world p).world)

omit [Facility τ] [Traced Obj] in
theorem release_start (w : World Obj τ) (n : Nat) :
    collectionTasksOf (Procedure.start w (.release n)).first = [] ∧
      (Procedure.start w (.release n)).world.heap.phase = w.heap.phase := by
  simp only [Procedure.start, World.dropObject]
  split
  · exact ⟨rfl, rfl⟩
  · exact ⟨rfl, rfl⟩

theorem start_collector {x y : Execution E} {k : Call Obj} {p : Procedure}
    {resume : p.Answer → E.Activity} (asked : x.Requests k p resume)
    (tasks : y.collectionTasks =
      collectionTasksOf (Procedure.start x.world p).first ++ x.collectionTasks)
    (world : y.world = (Procedure.start x.world p).world) : CollectorStep x y := by
  by_cases other : ¬ p.OfHeap
  · apply CollectorStep.quiet []
    · rw [tasks, collectionTasksOf_other (Procedure.start_first other x.world), List.nil_append]
    · rw [Heap.visitRoots_nil, world, Procedure.start_heap other x.world]
  cases p with
  | release n =>
    have released := release_start x.world n
    apply CollectorStep.quiet []
    · rw [tasks, released.1, List.nil_append]
    · rw [Heap.visitRoots_nil, world]
      exact released.2
  | collect roots =>
    by_cases idle : x.world.heap.collecting = false
    · have started : (Procedure.start x.world (.collect roots)).first =
          Procedure.collection roots := by simp [Procedure.start, idle]
      apply CollectorStep.begins ⟨⟨k, resume, asked⟩, idle⟩
      · rw [tasks, started, collectionTasksOf_collection]
      · rw [world]
        simp [Procedure.start, idle]
    · apply CollectorStep.quiet []
      · rw [tasks]
        simp [Procedure.start, idle, collectionTasksOf]
      · rw [world]
        simp [Procedure.start, idle, Heap.visitRoots_nil]
  | _ => exact absurd (fun h => h) other

theorem step_collector {x y : Execution E} (stepped : Stepped x y) : CollectorStep x y := by
  cases stepped with
  | proceed at_code turn =>
    apply CollectorStep.quiet []
    · rw [collectionTasks, collectionTasks, frames_of_code at_code, frames_of_code rfl]
    · rw [Heap.visitRoots_nil]
  | @command k a state notes c resume at_code turn =>
    apply CollectorStep.quiet []
    · rw [collectionTasks, collectionTasks, frames_of_code at_code, frames_of_code rfl]
    · rw [Heap.visitRoots_nil]
      exact c.perform_phase x.world
  | @procedure k a state notes p resume at_code turn =>
    apply start_collector ⟨a, state, notes, at_code, turn⟩
    · rw [collectionTasks, collectionTasks, frames_of_bridge rfl, frames_of_code at_code,
        List.flatMap_cons]
    · rfl
  | halt at_code turn alone =>
    apply CollectorStep.quiet []
    · rw [collectionTasks, collectionTasks, frames_of_code at_code, alone]
      rfl
    · rw [Heap.visitRoots_nil]
  | @finish k a state notes r s below at_code turn caller =>
    apply CollectorStep.quiet (k.reported r)
    · rw [collectionTasks, collectionTasks, frames_of_bridge rfl, frames_of_code at_code, caller,
        List.flatMap_cons, List.flatMap_cons, collectionTasksOf_append,
        collectionTasksOf_other (Call.resume_first E.types x.world s.progress k r), List.nil_append]
    · rw [← Call.resume_heap E.types x.world s.progress k r]
  | @ended s at_bridge done =>
    apply CollectorStep.quiet []
    · rw [collectionTasks, collectionTasks, frames_of_code rfl, frames_of_bridge at_bridge,
        List.flatMap_cons, done]
      rfl
    · rw [Heap.visitRoots_nil]
  | @called s k todo at_bridge next =>
    apply CollectorStep.quiet []
    · rw [collectionTasks, collectionTasks, frames_of_code rfl, frames_of_bridge at_bridge,
        List.flatMap_cons, List.flatMap_cons, next]
      rfl
    · rw [Heap.visitRoots_nil]
  | @worked s t todo at_bridge next no_call =>
    have before : x.collectionTasks =
        collectionTasksOf (t :: todo) ++ x.below.flatMap fun s => collectionTasksOf s.todo := by
      rw [collectionTasks, frames_of_bridge at_bridge, List.flatMap_cons, next]
    by_cases ofCollection : t.OfCollection
    · rw [collectionTasksOf_cons ofCollection, List.cons_append] at before
      have top : x.AtTask t := ⟨_, by rw [stack_of_bridge at_bridge, next]; rfl⟩
      refine CollectorStep.works before top ofCollection ?_ rfl
      rw [collectionTasks, frames_of_bridge rfl, List.flatMap_cons, collectionTasksOf_append,
        List.append_assoc]
    · have split : collectionTasksOf (t :: todo) = collectionTasksOf todo := by
        simp [collectionTasksOf, ofCollection]
      have other : ¬ t.OfHeap := fun ofHeap => ofCollection ofHeap.ofCollection
      apply CollectorStep.quiet []
      · rw [before, split, collectionTasks, frames_of_bridge rfl, List.flatMap_cons,
          collectionTasksOf_append,
          collectionTasksOf_other (Task.run_first other _ x.world s.progress), List.nil_append]
      · rw [Heap.visitRoots_nil, Task.run_heap other]

omit [Traced Obj] in
theorem AtTask.collectionTasks {x : Execution E} {t : Task Obj} (next : x.AtTask t)
    (ofCollection : t.OfCollection) : ∃ rest, x.collectionTasks = t :: rest := by
  obtain ⟨s, todo, at_bridge, first⟩ := next.bridge
  rw [Execution.collectionTasks, frames_of_bridge at_bridge, List.flatMap_cons, first,
    collectionTasksOf_cons ofCollection]
  exact ⟨_, rfl⟩

end Execution

end HostBridge
