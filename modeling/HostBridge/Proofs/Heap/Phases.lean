import HostBridge.Proofs.Execution.Turns
import HostBridge.Proofs.Heap.Collection
import HostBridge.Proofs.Heap.Round
/-!
# When the heap may be collected

While a collection works on the heap its conclusion waits on the stack: above it there is nothing
that tells a root set of the end, and below it nothing that works on the heap. So whatever is on the
stack says whether another collection may begin.
-/

namespace HostBridge

variable {Obj τ : Type}

def Item.Early : Item Obj → Prop
  | task (.call k) => ∃ r, k = .traceRoots r
  | task t => t.OfHeap
  | code k => ∃ r, k = .traceRoots r

def Item.Late : Item Obj → Prop
  | task (.call k) => ∃ r, k = .traceComplete r
  | task t => ∃ r, t = .traceComplete r
  | code k => ∃ r, k = .traceComplete r

def Item.Before (i : Item Obj) : Prop := ¬ i.Late ∧ i ≠ .task .conclude

theorem Item.before_code {k : Call Obj} (before : (Item.task (.call k)).Before) :
    (Item.code k).Before :=
  ⟨before.1, fun same => nomatch same⟩

theorem Task.Plain.item {t : Task Obj} (plain : t.Plain) :
    (Item.task t).Before ∧ ¬ (Item.task t).Early := by
  cases t with
  | call k =>
    refine ⟨⟨?_, fun same => nomatch same⟩, ?_⟩
    · rintro ⟨r, rfl⟩
      exact plain trivial
    · rintro ⟨r, rfl⟩
      exact plain trivial
  | traceRoots | markAndSweep | letGo | conclude | traceComplete => exact absurd trivial plain
  | _ =>
    refine ⟨⟨?_, fun same => nomatch same⟩, id⟩
    rintro ⟨r, same⟩
    cases same

theorem forall_plain_items {ts : List (Task Obj)} (plain : ∀ t ∈ ts, t.Plain) :
    ∀ i ∈ ts.map Item.task, i.Before ∧ ¬ i.Early := by
  intro i mem
  obtain ⟨t, of_ts, rfl⟩ := List.mem_map.mp mem
  exact (plain t of_ts).item

theorem drop_item (n : Nat) (object : Obj) :
    (Item.task (.call (.drop n object))).Before ∧
      ¬ (Item.task (.call (.drop n object)) : Item Obj).Early := by
  refine ⟨⟨?_, fun same => nomatch same⟩, ?_⟩
  · rintro ⟨r, same⟩
    cases same
  · rintro ⟨r, same⟩
    cases same

theorem dropObject_items (w : World Obj τ) (n : Nat) (unreferenced : Bool) :
    ∀ i ∈ (w.dropObject n unreferenced).2.map Item.task, i.Before ∧ ¬ i.Early := by
  rcases w.dropObject_cases n unreferenced with kept | ⟨object, _, _, dropped⟩
  · rw [kept]
    exact fun i mem => nomatch mem
  · rw [dropped]
    intro i mem
    obtain rfl := List.mem_singleton.mp mem
    exact drop_item n object

/-- A part of a collection, other than the letting go of objects. -/
def Task.isStage : Task Obj → Bool
  | traceRoots _ | markAndSweep | conclude | traceComplete _ => true
  | _ => false

def Item.stage? : Item Obj → Option (Task Obj)
  | task t => if t.isStage then some t else none
  | code _ => none

theorem Item.stage?_eq_none {i : Item Obj} (plain : i.Before ∧ ¬ i.Early) : i.stage? = none := by
  cases i with
  | code => rfl
  | task t =>
    cases t with
    | traceRoots | markAndSweep | conclude => exact absurd trivial plain.2
    | traceComplete r => exact absurd ⟨r, rfl⟩ plain.1.1
    | _ => rfl

theorem filterMap_stage?_plain {is : List (Item Obj)} (plain : ∀ i ∈ is, i.Before ∧ ¬ i.Early) :
    is.filterMap Item.stage? = [] :=
  List.filterMap_eq_nil_iff.mpr fun i mem => Item.stage?_eq_none (plain i mem)

theorem filterMap_stage?_tasks (ts : List (Task Obj)) :
    (ts.map Item.task).filterMap Item.stage? = ts.filter Task.isStage := by
  rw [List.filterMap_map, ← List.filterMap_eq_filter]
  rfl

theorem Task.run_stages [Traced Obj] {t : Task Obj} (part : t.OfCollection) (env : Surroundings)
    (w : World Obj τ) (p : Progress) :
    ((t.run env w p).first.map Item.task).filterMap Item.stage? = [] := by
  cases t with
  | traceRoots r | traceComplete r => cases r <;> rfl
  | markAndSweep | conclude => rfl
  | letGo =>
    simp only [run]
    split
    · rw [List.map_append, List.filterMap_append,
        filterMap_stage?_plain (dropObject_items _ _ _)]
      rfl
    · rfl
  | _ => exact part.elim

theorem Heap.collecting_of_phase {h h' : Heap Obj} (same : h'.phase = h.phase) :
    h'.collecting = h.collecting := by
  rw [collecting, collecting, same]

theorem Heap.collecting_visitRoots (h : Heap Obj) (xs : List Handle) :
    (h.visitRoots xs).collecting = h.collecting := by
  rcases phase : h.phase with _ | visited | ⟨marked, reclaimed⟩
  · simp [visitRoots, phase]
  · simp only [visitRoots, collecting, phase]
    rfl
  · simp [visitRoots, phase]

theorem Task.run_collecting [Traced Obj] {t : Task Obj} (other : t ≠ .conclude) (env : Surroundings)
    (w : World Obj τ) (p : Progress) :
    (t.run env w p).world.heap.collecting = w.heap.collecting := by
  by_cases plain : ¬ t.OfHeap
  · rw [run_heap plain]
  · cases t with
    | traceRoots r => rw [(run_traceRoots env w p r).2, Heap.collecting_visitRoots]
    | markAndSweep =>
      rcases phase : w.heap.phase with _ | visited | ⟨marked, reclaimed⟩
      · simp [run, Heap.markAndSweep, phase]
      · simp only [run, Heap.markAndSweep, phase, Heap.collecting]
        rfl
      · simp [run, Heap.markAndSweep, phase]
    | letGo => exact Heap.collecting_of_phase (run_letGo env w p).2
    | conclude => exact absurd rfl other
    | _ => exact absurd id plain

theorem Procedure.start_items (w : World Obj τ) (p : Procedure)
    (other : ∀ roots, p = .collect roots → w.heap.collecting = true) :
    (start w p).world.heap.phase = w.heap.phase ∧
      ∀ i ∈ (start w p).first.map Item.task, i.Before ∧ ¬ i.Early := by
  by_cases plain : ¬ p.OfHeap
  · exact ⟨by rw [start_heap plain], forall_plain_items (start_plain plain w)⟩
  · cases p with
    | release n => exact ⟨(Execution.release_start w n).2, dropObject_items _ _ _⟩
    | collect roots => simp [start, other roots rfl]
    | _ => exact absurd id plain

namespace Execution

variable [Facility τ] {E : Embedder Obj τ}

/-- What stands on the stack goes with the phase of the heap. -/
inductive Phased (x : Execution E) : Prop
  | idle (idle : x.world.heap.collecting = false) (none_early : ∀ i ∈ x.stack, ¬ i.Early)
  | busy (above below : List (Item Obj)) (busy : x.world.heap.collecting = true)
      (stack : x.stack = above ++ .task .conclude :: below) (before : ∀ i ∈ above, i.Before)
      (none_early : ∀ i ∈ below, ¬ i.Early)

section Step

variable {x y : Execution E} {i : Item Obj} {rest pushed : List (Item Obj)}

theorem Phased.same (phased : x.Phased) (stack : y.stack = x.stack)
    (same : y.world.heap.collecting = x.world.heap.collecting) : y.Phased := by
  cases phased with
  | idle idle none_early => exact .idle (same.trans idle) (stack ▸ none_early)
  | busy above below busy here before none_early =>
    exact .busy above below (same.trans busy) (stack.trans here) before none_early

theorem Phased.replace (phased : x.Phased) (top : x.stack = i :: rest)
    (stack : y.stack = pushed ++ rest)
    (same : y.world.heap.collecting = x.world.heap.collecting) (other : i ≠ .task .conclude)
    (before : i.Before → ∀ j ∈ pushed, j.Before) (early : ¬ i.Early → ∀ j ∈ pushed, ¬ j.Early) :
    y.Phased := by
  cases phased with
  | idle idle none_early =>
    rw [top, List.forall_mem_cons] at none_early
    refine .idle (same.trans idle) ?_
    rw [stack]
    exact List.forall_mem_append.mpr ⟨early none_early.1, none_early.2⟩
  | busy above below busy here own none_early =>
    rw [top] at here
    rcases above with _ | ⟨i', above⟩
    · exact absurd (List.cons.inj here).1 other
    · obtain ⟨rfl, behind⟩ := List.cons.inj here
      rw [List.forall_mem_cons] at own
      refine .busy (pushed ++ above) below (same.trans busy) ?_ ?_ none_early
      · rw [stack, behind, List.append_assoc]
        rfl
      · exact List.forall_mem_append.mpr ⟨before own.1, own.2⟩

theorem Phased.push (phased : x.Phased) {k : Call Obj} (at_code : x.AtCode k)
    (stack : y.stack = pushed ++ x.stack)
    (same : y.world.heap.collecting = x.world.heap.collecting)
    (plain : ∀ j ∈ pushed, j.Before ∧ ¬ j.Early) : y.Phased := by
  obtain ⟨rest, top⟩ := at_code
  have here : y.stack = pushed ++ [.code k] ++ rest := by rw [stack, top, List.append_cons]
  apply phased.replace top here same
  · exact fun h => nomatch h
  · intro before j mem
    rcases List.mem_append.mp mem with new | old
    · exact (plain j new).1
    · exact List.mem_singleton.mp old ▸ before
  · intro none_early j mem
    rcases List.mem_append.mp mem with new | old
    · exact (plain j new).2
    · exact List.mem_singleton.mp old ▸ none_early

variable [Traced Obj]

theorem Phased.work (phased : x.Phased) {t : Task Obj} {env : Surroundings} {p : Progress}
    (top : x.stack = .task t :: rest) (no_call : ∀ k, t ≠ .call k) (other : t ≠ .conclude)
    (stack : y.stack = (t.run env x.world p).first.map .task ++ rest)
    (world : y.world = (t.run env x.world p).world) : y.Phased := by
  have same : y.world.heap.collecting = x.world.heap.collecting := by
    rw [world, Task.run_collecting other]
  have differs : Item.task t ≠ .task .conclude := fun h => other (Item.task.inj h)
  by_cases part : t.OfCollection
  · cases t with
    | traceRoots r =>
      refine phased.replace top stack same differs (fun _ i mem => ?_) fun calm => absurd trivial calm
      cases r with
      | external r =>
        obtain rfl := List.mem_singleton.mp mem
        simp [Item.Before, Item.Late]
      | bridge | context | handles => cases mem
    | markAndSweep =>
      refine phased.replace top stack same differs (fun _ i mem => ?_) fun calm => absurd trivial calm
      cases mem
    | letGo =>
      refine phased.replace top stack same differs (fun _ i mem => ?_) fun calm => absurd trivial calm
      simp only [Task.run] at mem
      split at mem
      · rw [List.map_append] at mem
        rcases List.mem_append.mp mem with dropped | again
        · exact (dropObject_items _ _ _ i dropped).1
        · obtain rfl := List.mem_singleton.mp again
          simp [Item.Before, Item.Late]
      · cases mem
    | conclude => exact absurd rfl other
    | traceComplete r =>
      refine phased.replace top stack same differs (fun before => absurd ⟨r, rfl⟩ before.1)
        fun _ i mem => ?_
      cases r with
      | external r =>
        obtain rfl := List.mem_singleton.mp mem
        rintro ⟨q, h⟩
        cases h
      | bridge | context | handles => cases mem
    | _ => exact part.elim
  · have plain := forall_plain_items (Task.run_plain part env x.world p no_call)
    exact phased.replace top stack same differs (fun _ i mem => (plain i mem).1)
      fun _ i mem => (plain i mem).2

end Step

variable [Traced Obj] {x : Execution E} {n : Nat}

theorem AtTask.dropping (fresh : x.Fresh) (next : (x.run n).AtTask .conclude) :
    ∃ marked reclaimed, (x.run n).world.heap.phase = .dropping marked reclaimed := by
  have progresses := run_progresses fresh n
  obtain ⟨rest, first⟩ := next.collectionTasks trivial
  cases phase : (x.run n).world.heap.phase with
  | idle =>
    rw [progresses_idle phase, first] at progresses
    obtain ⟨r, same⟩ := progresses .conclude List.mem_cons_self
    cases same
  | tracing visited =>
    rw [progresses_tracing phase, first] at progresses
    obtain ⟨_, _, left, _, _, _, tasks⟩ := progresses
    rcases left with _ | ⟨r, left⟩
    · cases (List.cons.inj tasks).1
    · cases (List.cons.inj tasks).1
  | dropping marked reclaimed => exact ⟨marked, reclaimed, rfl⟩

/-- With its conclusion a collection is over, and what lies below has nothing to do with the heap. -/
theorem Phased.conclude (fresh : x.Fresh) (phased : (x.run n).Phased) {rest : List (Item Obj)}
    {env : Surroundings} {p : Progress} (top : (x.run n).stack = .task .conclude :: rest)
    (stack : (x.run (n + 1)).stack = rest)
    (world : (x.run (n + 1)).world = (Task.run env (x.run n).world p .conclude).world) :
    (x.run (n + 1)).Phased := by
  obtain ⟨marked, reclaimed, phase⟩ := AtTask.dropping fresh ⟨rest, top⟩
  have idle : (x.run (n + 1)).world.heap.collecting = false := by
    rw [world]
    simp [Task.run, Heap.conclude, phase, Heap.collecting]
  cases phased with
  | idle idle' => simp [Heap.collecting, phase] at idle'
  | busy above below _ here before none_early =>
    rw [top] at here
    rcases above with _ | ⟨i, above⟩
    · obtain ⟨_, rfl⟩ := List.cons.inj here
      exact .idle idle (stack ▸ none_early)
    · obtain ⟨rfl, _⟩ := List.cons.inj here
      exact absurd rfl (before _ List.mem_cons_self).2

theorem Phased.began (phased : (x.run n).Phased) {k : Call Obj} {p : Procedure}
    {resume : p.Answer → E.Activity} (requests : (x.run n).Requests k p resume)
    (stack : (x.run (n + 1)).stack =
      (Procedure.start (x.run n).world p).first.map .task ++ (x.run n).stack)
    (world : (x.run (n + 1)).world = (Procedure.start (x.run n).world p).world) :
    (x.run (n + 1)).Phased := by
  by_cases other : ∀ roots, p = .collect roots → (x.run n).world.heap.collecting = true
  · obtain ⟨same, items⟩ := Procedure.start_items (x.run n).world p other
    exact phased.push requests.atCode stack (Heap.collecting_of_phase (by rw [world, same])) items
  · simp only [not_forall] at other
    obtain ⟨roots, rfl, idle⟩ := other
    have none_early : ∀ i ∈ (x.run n).stack, ¬ i.Early := by
      cases phased with
      | idle _ none_early => exact none_early
      | busy _ _ busy => exact absurd busy idle
    simp only [Procedure.start, if_neg idle] at stack world
    refine .busy (roots.map (.task ∘ .traceRoots) ++ [.task .markAndSweep, .task .letGo])
      (roots.map (.task ∘ .traceComplete) ++ (x.run n).stack) ?_ ?_ ?_ ?_
    · rw [world]
      rfl
    · rw [stack, Procedure.collection]
      simp
    · intro i mem
      rcases List.mem_append.mp mem with traced | swept
      · obtain ⟨r, _, rfl⟩ := List.mem_map.mp traced
        simp [Item.Before, Item.Late]
      · simp only [List.mem_cons, List.not_mem_nil, or_false] at swept
        rcases swept with rfl | rfl <;> simp [Item.Before, Item.Late]
    · intro i mem
      rcases List.mem_append.mp mem with told | older
      · obtain ⟨r, _, rfl⟩ := List.mem_map.mp told
        exact id
      · exact none_early i older

theorem run_phased (fresh : x.Fresh) (n : Nat) : (x.run n).Phased := by
  induction n with
  | zero =>
    obtain ⟨world, state, a, threshold, empty, rfl⟩ := fresh
    refine .idle ?_ ?_
    · exact congrArg Heap.collecting empty
    · intro i mem
      obtain rfl := List.mem_singleton.mp mem
      rintro ⟨r, same⟩
      cases same
  | succ n ih =>
    cases x.run_rewrites n with
    | idle _ stack world => exact ih.same stack (by rw [world])
    | @performed c _ stack world =>
      exact ih.same stack (Heap.collecting_of_phase (by rw [world, Command.perform_phase]))
    | began requests stack world => exact ih.began requests stack world
    | @returned k r p rest top stack world =>
      have plain := forall_plain_items (k.resume_plain E.types (x.run n).world p r)
      refine ih.replace top stack ?_ (fun h => nomatch h) (fun _ i mem => (plain i mem).1)
        fun _ i mem => (plain i mem).2
      rw [world, Call.resume_heap, Heap.collecting_visitRoots]
    | halted top stack world =>
      have nothing : (x.run (n + 1)).stack = [] ++ [] := stack
      exact ih.replace top nothing (by rw [world]) (fun h => nomatch h)
        (fun _ i mem => nomatch mem) fun _ i mem => nomatch mem
    | @called k rest top stack world =>
      have entered : (x.run (n + 1)).stack = [.code k] ++ rest := stack
      refine ih.replace top entered (by rw [world]) (fun h => nomatch h) ?_ ?_
      · intro before i mem
        exact List.mem_singleton.mp mem ▸ Item.before_code before
      · intro calm i mem
        exact List.mem_singleton.mp mem ▸ calm
    | @worked t p rest top no_call stack world =>
      -- Only a conclusion sets the heap free again.
      by_cases last : t = .conclude
      · subst last
        exact ih.conclude fresh top stack world
      · exact ih.work top no_call last stack world

/-- As long as something on the stack traces root sets or works on the heap, so does the heap. -/
theorem collecting_of_early (fresh : x.Fresh) {i : Item Obj} (mem : i ∈ (x.run n).stack)
    (early : i.Early) : (x.run n).world.heap.collecting = true := by
  cases run_phased fresh n with
  | idle _ none_early => exact absurd early (none_early i mem)
  | busy _ _ busy => exact busy

theorem idle_of_late (fresh : x.Fresh) {i : Item Obj} {rest : List (Item Obj)}
    (top : (x.run n).stack = i :: rest) (late : i.Late) :
    (x.run n).world.heap.collecting = false := by
  cases run_phased fresh n with
  | idle idle => exact idle
  | busy above below _ stack before =>
    exfalso
    rw [top] at stack
    rcases above with _ | ⟨j, above⟩
    · obtain ⟨rfl, _⟩ := List.cons.inj stack
      obtain ⟨r, same⟩ := late
      cases same
    · obtain ⟨rfl, _⟩ := List.cons.inj stack
      exact (before _ List.mem_cons_self).1 late

def stage? (x : Execution E) : Option (Task Obj) := x.stack.head?.bind Item.stage?

def stages (x : Execution E) (m n : Nat) : List (Task Obj) :=
  (List.range' m (n - m)).filterMap fun i => (x.run i).stage?

def stagesLeft (x : Execution E) : List (Task Obj) := x.stack.filterMap Item.stage?

theorem stages_self (x : Execution E) (m : Nat) : x.stages m m = [] := by
  simp [stages]

theorem stages_succ {m : Nat} (le : m ≤ n) :
    x.stages m (n + 1) = x.stages m n ++ (x.run n).stage?.toList := by
  rw [stages, Nat.succ_sub le, List.range'_1_concat, Nat.add_sub_cancel' le, List.filterMap_append,
    stages]
  congr 1

omit [Traced Obj] in
theorem stage?_of_stack {y : Execution E} {i : Item Obj} {rest : List (Item Obj)}
    (top : y.stack = i :: rest) : y.stage? = i.stage? := by
  rw [stage?, top]
  rfl

omit [Traced Obj] in
theorem stage?_eq_none {y : Execution E} (no_task : ∀ t, ¬ y.AtTask t) : y.stage? = none := by
  rw [stage?]
  rcases here : y.stack with _ | ⟨i, rest⟩
  · rfl
  · cases i with
    | task t => exact absurd ⟨rest, here⟩ (no_task t)
    | code k => rfl

theorem not_atTask_of_stages {m i : Nat} (none_done : x.stages m n = []) (after : m ≤ i) (lt : i < n)
    {t : Task Obj} (stage : t.isStage = true) : ¬ (x.run i).AtTask t := by
  rintro ⟨rest, top⟩
  have nothing := List.filterMap_eq_nil_iff.mp none_done i (List.mem_range'_1.mpr ⟨after, by omega⟩)
  rw [stage?_of_stack top, Item.stage?, if_pos stage] at nothing
  cases nothing

theorem stagesLeft_succ (collecting : (x.run n).world.heap.collecting = true) :
    (x.run n).stagesLeft = (x.run n).stage?.toList ++ (x.run (n + 1)).stagesLeft := by
  cases x.run_rewrites n with
  | idle no_task stack => rw [stage?_eq_none no_task, stagesLeft, stagesLeft, stack]; rfl
  | performed performs stack =>
    rw [stage?_eq_none performs.not_atTask, stagesLeft, stagesLeft, stack]
    rfl
  | @began k p resume requests stack =>
    have items := (Procedure.start_items (x.run n).world p fun _ _ => collecting).2
    rw [stage?_eq_none requests.atCode.not_atTask, stagesLeft, stagesLeft, stack,
      List.filterMap_append, filterMap_stage?_plain items]
    rfl
  | @returned k r p rest top stack =>
    have plain := forall_plain_items (k.resume_plain E.types (x.run n).world p r)
    rw [stage?_of_stack top, stagesLeft, stagesLeft, stack, top, List.filterMap_append,
      filterMap_stage?_plain plain]
    rfl
  | halted top stack =>
    rw [stage?_of_stack top, stagesLeft, stagesLeft, stack, top]
    rfl
  | called top stack =>
    rw [stage?_of_stack top, stagesLeft, stagesLeft, stack, top]
    rfl
  | @worked t p rest top no_call stack =>
    have none_first : ((t.run ⟨E.types, E.alive (x.run n).state (x.run n).world.heap⟩
        (x.run n).world p).first.map Item.task).filterMap Item.stage? = [] := by
      by_cases part : t.OfCollection
      · exact Task.run_stages part _ _ _
      · exact filterMap_stage?_plain (forall_plain_items (Task.run_plain part _ _ _ no_call))
    rw [stage?_of_stack top, stagesLeft, stagesLeft, stack, top, List.filterMap_append, none_first,
      List.filterMap_cons]
    cases (Item.task t).stage? <;> rfl

theorem stages_append_left {m : Nat} (le : m ≤ n)
    (collecting : ∀ i, m ≤ i → i < n → (x.run i).world.heap.collecting = true) :
    (x.run m).stagesLeft = x.stages m n ++ (x.run n).stagesLeft := by
  induction le with
  | refl => rw [stages_self, List.nil_append]
  | @step n le ih =>
    rw [ih fun i after lt => collecting i after (Nat.lt_succ_of_lt lt), stages_succ le,
      List.append_assoc, ← stagesLeft_succ (collecting n le (Nat.lt_succ_self n))]

/-- As long as the conclusion of a collection waits below them, the stages that are done are those of
the tasks that have had their turn. -/
theorem InTurn.stages (fresh : x.Fresh) {m : Nat} {ts : List (Task Obj)} {rest : List (Item Obj)}
    (turns : x.InTurn m ts n) (top : (x.run m).stack = ts.map .task ++ rest)
    (waits : .task .conclude ∈ rest) : x.stages m n = ts.filter Task.isStage := by
  have early : (Item.task .conclude : Item Obj).Early := trivial
  have collecting : ∀ i, m ≤ i → i < n → (x.run i).world.heap.collecting = true := by
    intro i after lt
    obtain ⟨pre, here, _⟩ := turns.stack_within top after (Nat.le_of_lt lt)
    exact collecting_of_early fresh (here ▸ List.mem_append_right pre waits) early
  have split := stages_append_left turns.le collecting
  rw [stagesLeft, top, stagesLeft, turns.stack top, List.filterMap_append,
    filterMap_stage?_tasks] at split
  exact (List.append_cancel_right split).symm

end Execution

end HostBridge
