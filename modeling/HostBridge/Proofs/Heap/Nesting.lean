import HostBridge.Proofs.Execution.Plan
import HostBridge.Proofs.Heap.Count
import HostBridge.Proofs.Heap.Dropping
/-!
# Collections that hooks ask for

A hook may ask for another collection. While roots are traced and swept objects dropped the heap is
being collected, and the request comes to nothing. When the root sets are told of the end it is not,
and the request begins a collection of its own, after which the outer one goes on where it was.
-/

namespace HostBridge

variable {Obj τ : Type}

theorem Procedure.collection_eq (roots : List RootSet) :
    (collection roots : List (Task Obj)) = roots.map .traceRoots ++
      .markAndSweep :: ([.letGo, .conclude] ++ roots.map .traceComplete) := by
  simp [collection]

def Task.Uncounted : Task Obj → Prop
  | call k => k.OfCollection
  | markAndSweep => False
  | t => t.OfCollection

theorem Task.Uncounted.silent {t : Task Obj} (uncounted : t.Uncounted) : ¬ t.Counts := by
  cases t with
  | fire | frame | markAndSweep => exact uncounted.elim
  | _ => exact id

theorem keeps_uncounted [Traced Obj] : Execution.Keeps τ (@Task.Uncounted Obj) := by
  constructor
  · intro k hook types w p r t mem
    rw [(Call.resume_ofCollection hook types w p r).1] at mem
    cases mem
  · intro t uncounted no_call env w p u mem
    cases t with
    | call k => exact absurd rfl (no_call k)
    | traceRoots r | traceComplete r =>
      cases r with
      | external r =>
        obtain rfl := List.mem_singleton.mp mem
        exact trivial
      | bridge | context | handles => cases mem
    | conclude => cases mem
    | letGo =>
      rcases run_letGo_cases env w p with ⟨_, same⟩ | ⟨k, _, dropped, _, _, first, hooks⟩
      · rw [same] at mem
        cases mem
      · rw [first] at mem
        rcases List.mem_append.mp mem with hook | again
        · rcases hooks with rfl | ⟨object, rfl⟩
          · cases hook
          · obtain rfl := List.mem_singleton.mp hook
            exact trivial
        · obtain rfl := List.mem_singleton.mp again
          exact trivial
    | _ => exact uncounted.elim

theorem Heap.survives_reverse [Traced Obj] {h : Heap Obj} {visited : List Handle} {n : Nat} :
    h.Survives visited.reverse n ↔ h.Survives visited n := by
  simp only [Survives, reachable_reverse]

theorem Heap.length_doomed (h : Heap Obj) (m : Marking) :
    (h.sweep m).doomed.length = (garbage m.slots).length := by
  apply List.filterMap_length_eq_length.mpr
  intro i swept
  obtain ⟨⟨n, occupant⟩, _⟩ := mem_garbage.mp swept
  rw [show m.slots[i]?.bind Slot.occupant = some n from occupant]
  rfl

namespace Execution

variable [Facility τ] {E : Embedder Obj τ}

/-- A root set that is being traced has not returned yet. -/
def InTrace (x : Execution E) : Prop := ∃ r, .code (.traceRoots r) ∈ x.stack

def InDrop (x : Execution E) : Prop :=
  ∃ above n object rest, x.stack = above ++ .code (.drop n object) :: .task .letGo :: rest

variable [Traced Obj]

/-- What the code of the call `k` asks for at `n` comes to nothing: it goes on with the answer 0. -/
structure Refused (x : Execution E) (n : Nat) (k : Call Obj) (resume : Nat → E.Activity) : Prop where
  stack : (x.run (n + 1)).stack = (x.run n).stack
  answer : (x.run (n + 2)).focus = .code k (resume 0)
  below : (x.run (n + 2)).below = (x.run n).below
  world : (x.run (n + 1)).world = (x.run n).world ∧ (x.run (n + 2)).world = (x.run n).world

structure Collects (x : Execution E) (b : Nat) (k : Call Obj) (roots : List RootSet)
    (resume : Nat → E.Activity) : Prop where
  proceeds : ∀ n, b < n → ∃ done left m, Procedure.collection roots = done ++ left ∧
    x.InTurn (b + 1) done m ∧ m ≤ n ∧
    ∀ t ∈ left.head?, (x.run m).AtTask t ∧ (x.run m).Unfinished (n - m)
  alone : ∀ done left m, Procedure.collection roots = done ++ left → .conclude ∈ left →
    x.InTurn (b + 1) done m → x.stages (b + 1) m = done.filter Task.isStage
  drops : ∀ l c, x.InTurn (b + 1) (roots.map .traceRoots) l → x.InTurn (l + 1) [.letGo] c →
    ∀ n ∈ (x.run (l + 1)).world.heap.doomed,
      (x.run c).world.heap.object? n = none ∨ (x.run c).world.heap.isHeld n = true
  ends : (∃ e, x.InTurn (b + 1) (Procedure.collection roots) e) ∨ x.Hangs (b + 1)
  answers : ∀ e, x.InTurn (b + 1) (Procedure.collection roots) e → ∃ l,
    x.InTurn (b + 1) (roots.map .traceRoots) l ∧ (x.run (e + 1)).below = (x.run b).below ∧
    (x.run (e + 1)).focus = .code k (resume (x.run (l + 1)).world.heap.doomed.length)

variable {x : Execution E} {b n : Nat} {k : Call Obj} {roots : List RootSet}
  {resume : Nat → E.Activity}

theorem Requests.refused (requests : (x.run n).Requests k (.collect roots) resume)
    (collecting : (x.run n).world.heap.collecting = true) : x.Refused n k resume := by
  obtain ⟨at_bridge, below, world⟩ := requests.run_one
  obtain ⟨a, _, _, at_code, _⟩ := requests
  simp only [Procedure.start, collecting, if_true] at at_bridge world
  obtain ⟨_, focus, below', world'⟩ := done_endsAt at_bridge rfl
  simp only [← run_add] at at_bridge below world focus below' world'
  refine ⟨?_, focus, below'.trans below, world, world'.trans world⟩
  rw [stack_of_bridge at_bridge, below, stack_of_code at_code]
  rfl

theorem Begins.stack (begins : (x.run b).Begins roots) :
    (x.run (b + 1)).stack = (Procedure.collection roots).map .task ++ (x.run b).stack := by
  obtain ⟨⟨k, resume, requests⟩, idle⟩ := begins
  obtain ⟨at_bridge, below, _⟩ := requests.run_one
  obtain ⟨a, _, _, at_code, _⟩ := requests
  rw [← run_add] at at_bridge below
  rw [stack_of_bridge at_bridge, below, stack_of_code at_code]
  simp [Procedure.start, idle]

theorem parts_finish_or_hang {ts : List (Task Obj)} {rest : List (Item Obj)} {m : Nat}
    (parts : ∀ t ∈ ts, t.OfCollection ∧ t ≠ .letGo)
    (top : (x.run m).stack = ts.map .task ++ rest) :
    (∃ n, x.InTurn m ts n ∧ (x.run n).stack = rest) ∨ x.Hangs m := by
  induction ts generalizing m with
  | nil => exact Or.inl ⟨m, .nil m, top⟩
  | cons t ts ih =>
    rw [List.forall_mem_cons] at parts
    have next : (x.run m).AtTask t := ⟨_, top⟩
    rcases part_finishes_or_hangs next parts.1.1 parts.1.2 with ⟨j, finishes⟩ | hangs
    · rcases ih parts.2 (m := m + j) (by rw [run_add]; exact finishes.stack top) with
        ⟨n, turns, stack⟩ | hangs
      · exact Or.inl ⟨n, .cons next finishes turns, stack⟩
      · exact Or.inr (hangs.earlier (Nat.le_add_right m j))
    · exact Or.inr hangs

theorem Begins.ends (fresh : x.Fresh) (begins : (x.run b).Begins roots) :
    (∃ e, x.InTurn (b + 1) (Procedure.collection roots) e) ∨ x.Hangs (b + 1) := by
  have top := begins.stack
  have split : (Procedure.collection roots : List (Task Obj)) =
      (roots.map .traceRoots ++ [.markAndSweep]) ++
        (.letGo :: .conclude :: roots.map .traceComplete) := by simp [Procedure.collection]
  rw [split, List.map_append, List.append_assoc] at top
  have first : ∀ t ∈ (roots.map .traceRoots ++ [.markAndSweep] : List (Task Obj)),
      t.OfCollection ∧ t ≠ .letGo := by simp [Task.OfCollection, or_imp, forall_and]
  have last : ∀ t ∈ (.conclude :: roots.map .traceComplete : List (Task Obj)),
      t.OfCollection ∧ t ≠ .letGo := by simp [Task.OfCollection, or_imp, forall_and]
  rcases parts_finish_or_hang first top with ⟨l, swept, here⟩ | hangs
  · rcases letGo_finishes_or_hangs fresh _ rfl here (by simp) with ⟨j, finishes⟩ | hangs
    · have next : (x.run l).AtTask .letGo := ⟨_, here⟩
      have there : (x.run (l + j)).stack =
          (.conclude :: roots.map .traceComplete : List (Task Obj)).map .task ++
            (x.run b).stack := by
        rw [run_add]
        exact finishes.stack here
      rcases parts_finish_or_hang last there with ⟨e, told, _⟩ | hangs
      · rw [split]
        exact Or.inl ⟨e, swept.append (.cons next finishes told)⟩
      · exact Or.inr (hangs.earlier (Nat.le_trans swept.le (Nat.le_add_right l j)))
    · exact Or.inr (hangs.earlier swept.le)
  · exact Or.inr hangs

/-- In the turn of the tasks of a collection the heap is swept when all root sets have been traced. -/
theorem InTurn.exists_sweep (fresh : x.Fresh) {m e : Nat}
    (turns : x.InTurn m (Procedure.collection roots) e) : ∃ visited l,
      x.InTurn m (roots.map .traceRoots) l ∧ (x.run l).Sweeps visited ∧
      x.InTurn (l + 1) ([.letGo] ++ .conclude :: roots.map .traceComplete) e := by
  rw [Procedure.collection_eq] at turns
  obtain ⟨l, traced, later⟩ := turns.split
  cases later with
  | cons next finishes later =>
    obtain ⟨visited, sweeps⟩ := next.sweeps fresh
    obtain ⟨rest, top⟩ := next
    obtain ⟨_, swept, _⟩ := (x.run_rewrites l).of_task top (by simp)
    obtain rfl := finishes.unique ((InTurn.nil (l + 1)).finishesAt top swept)
    rw [Nat.add_sub_cancel_left] at later
    exact ⟨visited, l, traced, sweeps, later⟩

theorem Requests.done (fresh : x.Fresh) (requests : (x.run b).Requests k (.collect roots) resume)
    (idle : (x.run b).world.heap.collecting = false) {e : Nat}
    (turns : x.InTurn (b + 1) (Procedure.collection roots) e) :
    ∃ l p, x.InTurn (b + 1) (roots.map .traceRoots) l ∧ (x.run e).below = (x.run b).below ∧
      (x.run e).focus = .bridge ⟨k, .collect roots, resume, [], p⟩ ∧
      p.count = (x.run (l + 1)).world.heap.doomed.length := by
  obtain ⟨at_bridge, below, _⟩ := requests.run_one
  simp only [Procedure.start, idle, Bool.false_eq_true, if_false] at at_bridge
  rw [← run_add] at at_bridge below
  rw [Procedure.collection_eq] at at_bridge
  have tracings : ∀ t ∈ (roots.map .traceRoots : List (Task Obj)), t.Uncounted := by
    simp [Task.Uncounted, Task.OfCollection]
  have tellings : ∀ t ∈ ([.letGo] ++ .conclude :: roots.map .traceComplete : List (Task Obj)),
      t.Uncounted := by simp [Task.Uncounted, Task.OfCollection, or_imp, forall_and]
  obtain ⟨visited, l, traced, sweeps, told⟩ := turns.exists_sweep fresh
  obtain ⟨p, here, below', _⟩ :=
    traced.resumes keeps_uncounted (fun _ => Task.Uncounted.silent) tracings at_bridge rfl
  obtain ⟨⟨_, there, below''⟩, _⟩ := work_goesOn here rfl (by simp)
  have counted : ((Task.run ⟨E.types, E.alive (x.run l).state (x.run l).world.heap⟩
      (x.run l).world p .markAndSweep).progress).count =
        (x.run (l + 1)).world.heap.doomed.length := by
    rw [sweeps.heap, Heap.length_doomed]
    simp only [Task.run, Heap.markAndSweep, sweeps.phase, Heap.sweep]
  rw [← run_add] at there below''
  obtain ⟨q, last, below₃, same⟩ :=
    told.resumes keeps_uncounted (fun _ => Task.Uncounted.silent) tellings there
      (List.append_nil _).symm
  refine ⟨l, q, traced, ?_, last, same.trans counted⟩
  rw [below₃, below'', below', below]

theorem Requests.answers (fresh : x.Fresh)
    (requests : (x.run b).Requests k (.collect roots) resume)
    (idle : (x.run b).world.heap.collecting = false) {e : Nat}
    (turns : x.InTurn (b + 1) (Procedure.collection roots) e) :
    ∃ l, x.InTurn (b + 1) (roots.map .traceRoots) l ∧ (x.run (e + 1)).below = (x.run b).below ∧
      (x.run (e + 1)).focus = .code k (resume (x.run (l + 1)).world.heap.doomed.length) := by
  obtain ⟨l, p, traced, below, at_bridge, counted⟩ := requests.done fresh idle turns
  obtain ⟨_, focus, below', _⟩ := done_endsAt at_bridge rfl
  rw [← run_add] at focus below'
  refine ⟨l, traced, below'.trans below, ?_⟩
  rw [focus, ← counted]
  rfl

/-- A collection that is asked for while the heap is not being collected takes its course, and any
other comes to nothing. The heap is being collected until the conclusion of a collection, so while a
root set is traced and while the drop hook of a swept object runs, but not when a root set is told of
the end. -/
theorem collections_nest (fresh : x.Fresh) :
    (∀ b k roots resume, (x.run b).Requests k (.collect roots) resume →
      (x.run b).world.heap.collecting = false → x.Collects b k roots resume) ∧
    (∀ n k roots resume, (x.run n).Requests k (.collect roots) resume →
      (x.run n).world.heap.collecting = true → x.Refused n k resume) ∧
    (∀ n, (x.run n).world.heap.collecting = true ↔ .task .conclude ∈ (x.run n).stack) ∧
    (∀ n, (x.run n).InTrace ∨ (x.run n).InDrop → (x.run n).world.heap.collecting = true) ∧
    ∀ n r, (x.run n).AtCode (.traceComplete r) → (x.run n).world.heap.collecting = false := by
  refine ⟨?_, ?_, ?_, ?_, ?_⟩
  · intro b k roots resume requests idle
    have begins : (x.run b).Begins roots := ⟨⟨k, resume, requests⟩, idle⟩
    have top := begins.stack
    refine ⟨fun n after => exists_inTurn top after, ?_, ?_, begins.ends fresh,
      fun e turns => requests.answers fresh idle turns⟩
    · intro done left m split waits turns
      rw [split, List.map_append, List.append_assoc] at top
      exact turns.stages fresh top (List.mem_append_left _ (List.mem_map_of_mem waits))
    · intro l c traced dropped n swept
      rw [Procedure.collection_eq, List.map_append, List.append_assoc] at top
      have here := traced.stack top
      obtain ⟨_, there, _⟩ := (x.run_rewrites l).of_task here fun k h => nomatch h
      exact gone_or_held fresh dropped.le swept ⟨_, dropped.stack there⟩
  · intro n k roots resume requests collecting
    exact requests.refused collecting
  · intro n
    constructor
    · intro collecting
      cases run_phased fresh n with
      | idle idle => cases idle.symm.trans collecting
      | busy above below _ stack =>
        rw [stack]
        exact List.mem_append_right above List.mem_cons_self
    · intro waits
      exact collecting_of_early fresh waits trivial
  · rintro n (⟨r, running⟩ | ⟨above, k, object, rest, stack⟩)
    · exact collecting_of_early fresh running ⟨r, rfl⟩
    · have waits : .task .letGo ∈ (x.run n).stack := by
        rw [stack]
        simp
      exact collecting_of_early fresh waits trivial
  · rintro n r ⟨rest, top⟩
    exact idle_of_late fresh top ⟨r, rfl⟩

def collectInHooks : Call (List Handle) → List (Order (List Handle) Manual)
  | .traceRoots 0 | .drop .. => [.procedure (.collect [.external 1])]
  | .traceComplete 0 => [.procedure (.collect [.external 2])]
  | _ => []

def collecting : Execution (plan collectInHooks) :=
  planned {} _ [.command (.allocate []), .procedure (.collect [.external 0, .handles []])]

theorem collecting_nests :
    collecting.Collects 1 .session [.external 0, .handles []] (fun _ => []) ∧
      collecting.Refused 4 (.traceRoots 0) (fun _ => []) ∧
      collecting.Refused 11 (.drop 0 []) (fun _ => []) ∧
      collecting.Collects 18 (.traceComplete 0) [.external 2] (fun _ => []) ∧
      (collecting.run 16).world.heap.stats = ⟨1, 0, 1, 0⟩ ∧
      (collecting.run 35).world.heap.stats = ⟨2, 0, 0, 0⟩ := by
  have fresh : collecting.Fresh := ⟨_, _, _, 1024, rfl, rfl⟩
  have ⟨begins, refuses, _⟩ := collections_nest fresh
  refine ⟨?_, ?_, ?_, ?_, by decide +kernel, by decide +kernel⟩
  · exact begins 1 _ _ _ (plan_requests_last (by decide +kernel)) (by decide +kernel)
  · exact refuses 4 _ [.external 1] _ (plan_requests_last (by decide +kernel)) (by decide +kernel)
  · exact refuses 11 _ [.external 1] _ (plan_requests_last (by decide +kernel)) (by decide +kernel)
  · exact begins 18 _ _ _ (plan_requests_last (by decide +kernel)) (by decide +kernel)

def collectInDrop : Call (List Handle) → List (Order (List Handle) Manual)
  | .drop 0 _ => [.procedure (.collect [])]
  | _ => []

def releasing : Execution (plan collectInDrop) :=
  planned {} _ [.command (.allocate []), .command (.retain ⟨0, 0⟩), .procedure (.collect []),
    .command (.allocate []), .procedure (.release 0)]

/-- A drop hook that no collection runs may collect: here it reclaims another object. -/
theorem released_drop_collects :
    releasing.Fresh ∧ (releasing.run 11).Requests (.drop 0 []) (.collect []) (fun _ => []) ∧
      ¬ releasing.Refused 11 (.drop 0 []) (fun _ => []) ∧
      (releasing.run 11).world.heap.alive ⟨0, 1⟩ = true ∧
      (releasing.run 19).world.heap.alive ⟨0, 1⟩ = false ∧
      (releasing.run 19).world.heap.stats = ⟨2, 0, 1, 0⟩ := by
  refine ⟨⟨_, _, _, 1024, rfl, rfl⟩, plan_requests_last (by decide +kernel), ?_, by decide +kernel,
    by decide +kernel, by decide +kernel⟩
  intro refused
  have same : (releasing.run 12).world.heap.phase = (releasing.run 11).world.heap.phase :=
    congrArg (fun w => w.heap.phase) refused.world.1
  revert same
  decide +kernel

end Execution

end HostBridge
