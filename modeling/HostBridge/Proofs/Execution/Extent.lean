import HostBridge.Proofs.Execution.Run
/-!
# How long a call lasts

Calls and procedures nest: a procedure is one deeper than the code that asks for it, and the code of
a call one deeper than the procedure that makes it. What is in focus has ended when an execution
comes out above its depth.
-/

namespace HostBridge.Execution

variable {Obj τ : Type} [Facility τ] {E : Embedder Obj τ}

/-- The procedures that have not ended, the innermost first. -/
def frames (x : Execution E) : List (Suspended E) :=
  match x.focus with
  | .bridge s => s :: x.below
  | _ => x.below

def depth (x : Execution E) : Nat :=
  match x.focus with
  | .bridge _ => 2 * x.below.length + 1
  | _ => 2 * x.below.length

theorem frames_of_code {x : Execution E} {k : Call Obj} {a : E.Activity}
    (at_code : x.focus = .code k a) : x.frames = x.below := by
  rw [frames, at_code]

theorem frames_of_bridge {x : Execution E} {s : Suspended E} (at_bridge : x.focus = .bridge s) :
    x.frames = s :: x.below := by
  rw [frames, at_bridge]

theorem depth_of_code {x : Execution E} {k : Call Obj} {a : E.Activity}
    (at_code : x.focus = .code k a) : x.depth = 2 * x.below.length := by
  rw [depth, at_code]

theorem depth_of_bridge {x : Execution E} {s : Suspended E} (at_bridge : x.focus = .bridge s) :
    x.depth = 2 * x.below.length + 1 := by
  rw [depth, at_bridge]

theorem frames_le_depth (x : Execution E) : 2 * x.frames.length ≤ x.depth + 1 := by
  unfold depth frames
  split
  · simp only [List.length_cons]
    omega
  · exact Nat.le_succ _

variable [Traced Obj]

theorem Stepped.mem_frames {x y : Execution E} (stepped : Stepped x y) {s : Suspended E}
    (mem : s ∈ y.frames) : (∃ s' ∈ x.frames, ∃ todo progress, s = { s' with todo, progress }) ∨
      x.Requests s.k s.procedure s.resume := by
  cases stepped with
  | proceed at_code | command at_code =>
    rw [frames_of_code rfl] at mem
    exact Or.inl ⟨s, frames_of_code at_code ▸ mem, s.todo, s.progress, rfl⟩
  | procedure at_code turn =>
    rw [frames_of_bridge rfl] at mem
    rcases List.mem_cons.mp mem with rfl | below
    · exact Or.inr ⟨_, _, _, at_code, turn⟩
    · exact Or.inl ⟨s, frames_of_code at_code ▸ below, s.todo, s.progress, rfl⟩
  | halt => cases mem
  | finish at_code turn caller =>
    rw [frames_of_bridge rfl] at mem
    rw [frames_of_code at_code, caller]
    rcases List.mem_cons.mp mem with rfl | below
    · exact Or.inl ⟨_, List.mem_cons_self, _, _, rfl⟩
    · exact Or.inl ⟨s, List.mem_cons_of_mem _ below, s.todo, s.progress, rfl⟩
  | ended at_bridge =>
    rw [frames_of_code rfl] at mem
    rw [frames_of_bridge at_bridge]
    exact Or.inl ⟨s, List.mem_cons_of_mem _ mem, s.todo, s.progress, rfl⟩
  | called at_bridge =>
    rw [frames_of_code rfl] at mem
    rw [frames_of_bridge at_bridge]
    rcases List.mem_cons.mp mem with rfl | below
    · exact Or.inl ⟨_, List.mem_cons_self, _, _, rfl⟩
    · exact Or.inl ⟨s, List.mem_cons_of_mem _ below, s.todo, s.progress, rfl⟩
  | worked at_bridge =>
    rw [frames_of_bridge rfl] at mem
    rw [frames_of_bridge at_bridge]
    rcases List.mem_cons.mp mem with rfl | below
    · exact Or.inl ⟨_, List.mem_cons_self, _, _, rfl⟩
    · exact Or.inl ⟨s, List.mem_cons_of_mem _ below, s.todo, s.progress, rfl⟩

/-- A procedure that has not ended was in progress at the start, or it has been requested since. -/
theorem frame_requested {x : Execution E} {n : Nat} {s : Suspended E} (mem : s ∈ (x.run n).frames) :
    (∃ s' ∈ x.frames, s'.k = s.k ∧ s'.procedure = s.procedure) ∨
      ∃ m < n, (x.run m).Requests s.k s.procedure s.resume := by
  induction n generalizing s with
  | zero => exact Or.inl ⟨s, mem, rfl, rfl⟩
  | succ n ih =>
    have now : (∃ s' ∈ (x.run n).frames, ∃ todo progress, s = { s' with todo, progress }) ∨
        (x.run n).Requests s.k s.procedure s.resume := by
      rcases run_succ_cases x n with same | stepped
      · exact Or.inl ⟨s, same ▸ mem, s.todo, s.progress, rfl⟩
      · exact stepped.mem_frames mem
    rcases now with ⟨s', earlier, todo, progress, rfl⟩ | requests
    · rcases ih earlier with start | ⟨m, lt, requests⟩
      · exact Or.inl start
      · exact Or.inr ⟨m, Nat.lt_succ_of_lt lt, requests⟩
    · exact Or.inr ⟨n, Nat.lt_succ_self n, requests⟩

def Lasts (x : Execution E) (n : Nat) : Prop := ∀ m ≤ n, x.depth ≤ (x.run m).depth

def EndsAt (x : Execution E) (n : Nat) : Prop :=
  (∀ m < n, x.depth ≤ (x.run m).depth) ∧ (x.run n).depth < x.depth

/-- After `n` steps what was in focus at `x` is in focus again, at `y`, and has not ended. -/
structure Resumes (x : Execution E) (n : Nat) (y : Execution E) : Prop where
  run : x.run n = y
  lasts : x.Lasts n
  level : y.depth = x.depth

namespace Resumes

variable {x y z : Execution E} {m n : Nat}

theorem refl (x : Execution E) : x.Resumes 0 x := by
  refine ⟨rfl, ?_, rfl⟩
  intro m le
  exact Nat.le_of_eq (by rw [Nat.le_zero.mp le, run_zero])

theorem lasts_add (first : x.Resumes m y) (later : y.Lasts n) : x.Lasts (m + n) := by
  intro j le
  by_cases before : j ≤ m
  · exact first.lasts j before
  · obtain ⟨i, rfl⟩ := Nat.exists_eq_add_of_le (Nat.le_of_not_le before)
    rw [run_add, first.run, ← first.level]
    exact later i (Nat.le_of_add_le_add_left le)

theorem trans (first : x.Resumes m y) (second : y.Resumes n z) : x.Resumes (m + n) z := by
  refine ⟨?_, first.lasts_add second.lasts, second.level.trans first.level⟩
  rw [run_add, first.run, second.run]

theorem endsAt (first : x.Resumes m y) (ending : y.EndsAt n) : x.EndsAt (m + n) := by
  refine ⟨?_, ?_⟩
  · intro j lt
    by_cases before : j ≤ m
    · exact first.lasts j before
    · obtain ⟨i, rfl⟩ := Nat.exists_eq_add_of_le (Nat.le_of_not_le before)
      rw [run_add, first.run, ← first.level]
      exact ending.1 i (Nat.lt_of_add_lt_add_left lt)
  · rw [run_add, first.run, ← first.level]
    exact ending.2

theorem one (stepped : x.step = some y) (level : y.depth = x.depth) : x.Resumes 1 y := by
  have run : x.run 1 = y := run_succ_of_step stepped
  refine ⟨run, ?_, level⟩
  intro m le
  match m, le with
  | 0, _ => exact Nat.le_refl _
  | 1, _ => exact Nat.le_of_eq (by rw [run, level])

end Resumes

section Deeper

variable {x y : Execution E} {n : Nat}

theorem lasts_of_deeper (entered : x.run 1 = y) (deeper : y.depth = x.depth + 1)
    (lasts : y.Lasts n) : x.Lasts (1 + n) := by
  intro j le
  match j, le with
  | 0, _ => exact Nat.le_refl _
  | j + 1, le =>
    have deep := lasts j (by omega)
    rw [Nat.add_comm, run_add, entered]
    omega

theorem resumes_of_deeper (entered : x.run 1 = y) (deeper : y.depth = x.depth + 1)
    (ending : y.EndsAt n) (level : (y.run n).depth = x.depth) : x.Resumes (1 + n) (y.run n) := by
  refine ⟨by rw [run_add, entered], ?_, level⟩
  intro j le
  match j, le with
  | 0, _ => exact Nat.le_refl _
  | j + 1, le =>
    rw [Nat.add_comm, run_add, entered]
    by_cases before : j < n
    · have deep := ending.1 j before
      omega
    · obtain rfl : j = n := by omega
      exact Nat.le_of_eq level.symm

end Deeper

theorem finish_endsAt {x : Execution E} {k : Call Obj} {a : E.Activity} {state : E.State}
    {notes : List E.Note} {r : k.Reply} (at_code : x.focus = .code k a)
    (turn : E.next k x.world x.state a = ⟨state, notes, .finish r⟩) (called : x.below ≠ []) :
    x.EndsAt 1 := by
  obtain ⟨s, rest, below⟩ := List.exists_cons_of_ne_nil called
  have stepped : (x.run 0).step = some (x.move k a) := by rw [run_zero, step, at_code]
  refine ⟨?_, ?_⟩
  · intro m lt
    exact Nat.le_of_eq (by rw [Nat.lt_one_iff.mp lt, run_zero])
  · rw [run_succ_of_step stepped, depth_of_code at_code, below, List.length_cons]
    simp only [move, turn, reply, record, below, advance, depth]
    omega

theorem run_one_of_bridge {x : Execution E} {s : Suspended E} (at_bridge : x.focus = .bridge s) :
    x.run 1 = x.work s :=
  run_succ_of_step (n := 0) (by rw [run_zero, step, at_bridge])

theorem work_call {x : Execution E} {s : Suspended E} {k : Call Obj} {todo : List (Task Obj)}
    (next : s.todo = .call k :: todo) :
    x.work s = ⟨x.world, x.state, .code k (E.enter k), { s with todo } :: x.below,
      .called k :: x.history⟩ := by
  simp [work, next, record]

theorem work_done {x : Execution E} {s : Suspended E} (done : s.todo = []) :
    x.work s = ⟨x.world, x.state, .code s.k (s.resume (s.procedure.answer s.progress)), x.below,
      .ended s.procedure (s.procedure.answer s.progress) :: x.history⟩ := by
  simp [work, done, record]

structure GoesOn (x : Execution E) (s : Suspended E) (n : Nat) (y : Execution E) : Prop where
  resumes : x.Resumes n y
  at_bridge : y.focus = .bridge s
  below : y.below = x.below

theorem GoesOn.refl {x : Execution E} {s : Suspended E} {todo : List (Task Obj)}
    (at_bridge : x.focus = .bridge s) (next : s.todo = todo) : x.GoesOn { s with todo } 0 x := by
  subst next
  exact ⟨.refl x, at_bridge, rfl⟩

theorem GoesOn.trans {x y z : Execution E} {s t : Suspended E} {m n : Nat}
    (first : x.GoesOn s m y) (second : y.GoesOn t n z) : x.GoesOn t (m + n) z :=
  ⟨first.resumes.trans second.resumes, second.at_bridge, second.below.trans first.below⟩

theorem done_endsAt {x : Execution E} {s : Suspended E} (at_bridge : x.focus = .bridge s)
    (done : s.todo = []) :
    x.EndsAt 1 ∧ (x.run 1).focus = .code s.k (s.resume (s.procedure.answer s.progress)) ∧
      (x.run 1).below = x.below ∧ (x.run 1).world = x.world := by
  rw [run_one_of_bridge at_bridge, work_done done]
  refine ⟨⟨?_, ?_⟩, rfl, rfl, rfl⟩
  · intro m lt
    exact Nat.le_of_eq (by rw [Nat.lt_one_iff.mp lt, run_zero])
  · rw [run_one_of_bridge at_bridge, work_done done, depth_of_bridge at_bridge]
    exact Nat.lt_succ_self _

theorem work_goesOn {x : Execution E} {s : Suspended E} {t : Task Obj} {todo : List (Task Obj)}
    (at_bridge : x.focus = .bridge s) (next : s.todo = t :: todo) (no_call : ∀ k, t ≠ .call k) :
    x.GoesOn { s with
        todo := (t.run ⟨E.types, E.alive x.state x.world.heap⟩ x.world s.progress).first ++ todo
        progress :=
          (t.run ⟨E.types, E.alive x.state x.world.heap⟩ x.world s.progress).progress } 1 (x.run 1) ∧
      (x.run 1).world = (t.run ⟨E.types, E.alive x.state x.world.heap⟩ x.world s.progress).world := by
  have stepped : x.step = some (x.work s) := by rw [step, at_bridge]
  have worked : x.work s = x.advance { s with todo }
      (t.run ⟨E.types, E.alive x.state x.world.heap⟩ x.world s.progress) := by
    cases t with
    | call k => exact absurd rfl (no_call k)
    | _ => simp [work, next]
  rw [run_one_of_bridge at_bridge]
  refine ⟨⟨.one stepped ?_, ?_, ?_⟩, ?_⟩
  · rw [worked, depth_of_bridge at_bridge]
    rfl
  · rw [worked]
    rfl
  · rw [worked]
    rfl
  · rw [worked]
    rfl

theorem task_goesOn {x : Execution E} {s : Suspended E} {t : Task Obj} {todo : List (Task Obj)}
    (at_bridge : x.focus = .bridge s) (next : s.todo = t :: todo) (no_call : ∀ k, t ≠ .call k) :
    ∃ env y, x.GoesOn { s with
        todo := (t.run env x.world s.progress).first ++ todo
        progress := (t.run env x.world s.progress).progress } 1 y ∧
      y.world = (t.run env x.world s.progress).world :=
  ⟨_, _, work_goesOn at_bridge next no_call⟩

def Finishes (x : Execution E) (k : Call Obj) (r : k.Reply) : Prop :=
  ∃ a state notes, x.focus = .code k a ∧ E.next k x.world x.state a = ⟨state, notes, .finish r⟩

theorem call_goesOn_of_finishes {x y : Execution E} {s : Suspended E} {k : Call Obj}
    {todo : List (Task Obj)} {r : k.Reply} {n : Nat} (at_bridge : x.focus = .bridge s)
    (next : s.todo = .call k :: todo) (lasts : (x.run 1).Resumes n y)
    (below : y.below = (x.run 1).below) (finishes : y.Finishes k r) :
    x.GoesOn { s with
        todo := (k.resume E.types y.world s.progress r).first ++ todo
        progress := (k.resume E.types y.world s.progress r).progress } (1 + (n + 1)) (y.run 1) ∧
      (y.run 1).world = (k.resume E.types y.world s.progress r).world := by
  have entered : x.run 1 = ⟨x.world, x.state, .code k (E.enter k), { s with todo } :: x.below,
      .called k :: x.history⟩ := by rw [run_one_of_bridge at_bridge, work_call next]
  have deeper : (x.run 1).depth = x.depth + 1 := by
    rw [entered, depth_of_code rfl, depth_of_bridge at_bridge, List.length_cons]
    omega
  have caller : y.below = { s with todo } :: x.below := by rw [below, entered]
  obtain ⟨a, state, notes, at_code, turn⟩ := finishes
  have ending := lasts.endsAt
    (finish_endsAt at_code turn (by rw [caller]; exact List.cons_ne_nil _ _))
  have stepped : (y.run 0).step = some (y.move k a) := by rw [run_zero, step, at_code]
  have after : (x.run 1).run (n + 1) = y.run 1 := by rw [run_add, lasts.run]
  have returned : y.run 1 = y.move k a := run_succ_of_step stepped
  have here : (y.run 1).focus = .bridge { s with
        todo := (k.resume E.types y.world s.progress r).first ++ todo
        progress := (k.resume E.types y.world s.progress r).progress } ∧
      (y.run 1).below = x.below ∧
      (y.run 1).world = (k.resume E.types y.world s.progress r).world := by
    rw [returned]
    simp [move, turn, record, reply, caller, advance]
  obtain ⟨at_bridge', below', world⟩ := here
  have level : ((x.run 1).run (n + 1)).depth = x.depth := by
    rw [after, depth_of_bridge at_bridge', below', depth_of_bridge at_bridge]
  have resumes := resumes_of_deeper rfl deeper ending level
  rw [after] at resumes
  exact ⟨⟨resumes, at_bridge', below'⟩, world⟩

end HostBridge.Execution
