import HostBridge.Execution.Step
/-!
# Runs

`Stepped` lists the ways an execution goes on, so that what a step preserves is shown case by case.
Steps are deterministic: what is reached from an execution are the states `x.run n`, in order.
-/

namespace HostBridge.Execution

variable {Obj τ : Type} [Facility τ] {E : Embedder Obj τ}

def noted (x : Execution E) (notes : List E.Note) : List (Event E) :=
  (notes.map Event.note).reverse ++ x.history

def signalled (history : List (Event E)) (signals : List Signal) : List (Event E) :=
  (signals.map Event.signal).reverse ++ history

variable [Traced Obj]

inductive Stepped (x : Execution E) : Execution E → Prop
  | proceed {k : Call Obj} {a a' : E.Activity} {state : E.State} {notes : List E.Note}
      (at_code : x.focus = .code k a)
      (turn : E.next k x.world x.state a = ⟨state, notes, .proceed a'⟩) :
      Stepped x ⟨x.world, state, .code k a', x.below, x.noted notes⟩
  | command {k : Call Obj} {a : E.Activity} {state : E.State} {notes : List E.Note}
      {c : Command Obj τ} {resume : c.Answer → E.Activity}
      (at_code : x.focus = .code k a)
      (turn : E.next k x.world x.state a = ⟨state, notes, .command c resume⟩) :
      Stepped x ⟨(c.perform x.world).world, state, .code k (resume (c.perform x.world).answer),
        x.below, .performed c (c.perform x.world).answer ::
          signalled (x.noted notes) (c.perform x.world).signals⟩
  | procedure {k : Call Obj} {a : E.Activity} {state : E.State} {notes : List E.Note}
      {p : Procedure} {resume : p.Answer → E.Activity}
      (at_code : x.focus = .code k a)
      (turn : E.next k x.world x.state a = ⟨state, notes, .procedure p resume⟩) :
      Stepped x ⟨(Procedure.start x.world p).world, state,
        .bridge ⟨k, p, resume, (Procedure.start x.world p).first,
          (Procedure.start x.world p).progress⟩,
        x.below, signalled (.began p :: x.noted notes) (Procedure.start x.world p).signals⟩
  | halt {k : Call Obj} {a : E.Activity} {state : E.State} {notes : List E.Note} {r : k.Reply}
      (at_code : x.focus = .code k a)
      (turn : E.next k x.world x.state a = ⟨state, notes, .finish r⟩)
      (alone : x.below = []) :
      Stepped x ⟨x.world, state, .halted, [], .returned k r :: x.noted notes⟩
  | finish {k : Call Obj} {a : E.Activity} {state : E.State} {notes : List E.Note} {r : k.Reply}
      {s : Suspended E} {below : List (Suspended E)}
      (at_code : x.focus = .code k a)
      (turn : E.next k x.world x.state a = ⟨state, notes, .finish r⟩)
      (caller : x.below = s :: below) :
      Stepped x ⟨(k.resume E.types x.world s.progress r).world, state,
        .bridge { s with
          todo := (k.resume E.types x.world s.progress r).first ++ s.todo
          progress := (k.resume E.types x.world s.progress r).progress },
        below, signalled (.returned k r :: x.noted notes)
          (k.resume E.types x.world s.progress r).signals⟩
  | ended {s : Suspended E} (at_bridge : x.focus = .bridge s) (done : s.todo = []) :
      Stepped x ⟨x.world, x.state, .code s.k (s.resume (s.procedure.answer s.progress)), x.below,
        .ended s.procedure (s.procedure.answer s.progress) :: x.history⟩
  | called {s : Suspended E} {k : Call Obj} {todo : List (Task Obj)}
      (at_bridge : x.focus = .bridge s) (next : s.todo = .call k :: todo) :
      Stepped x ⟨x.world, x.state, .code k (E.enter k), { s with todo } :: x.below,
        .called k :: x.history⟩
  | worked {s : Suspended E} {t : Task Obj} {todo : List (Task Obj)}
      (at_bridge : x.focus = .bridge s) (next : s.todo = t :: todo) (no_call : ∀ k, t ≠ .call k) :
      Stepped x
        ⟨(t.run ⟨E.types, E.alive x.state x.world.heap⟩ x.world s.progress).world, x.state,
          .bridge { s with
            todo := (t.run ⟨E.types, E.alive x.state x.world.heap⟩ x.world s.progress).first ++ todo
            progress :=
              (t.run ⟨E.types, E.alive x.state x.world.heap⟩ x.world s.progress).progress },
          x.below, signalled x.history
            (t.run ⟨E.types, E.alive x.state x.world.heap⟩ x.world s.progress).signals⟩

theorem move_stepped {x : Execution E} {k : Call Obj} {a : E.Activity}
    (at_code : x.focus = .code k a) : Stepped x (x.move k a) := by
  rcases turn : E.next k x.world x.state a with ⟨state, notes, move⟩
  cases move with
  | proceed a' =>
    have same := Stepped.proceed at_code turn
    simpa [Execution.move, turn, record, noted] using same
  | command c resume =>
    have same := Stepped.command at_code turn
    simpa [Execution.move, turn, record, noted, signalled] using same
  | procedure p resume =>
    have same := Stepped.procedure at_code turn
    simpa [Execution.move, turn, record, noted, signalled, advance] using same
  | finish r =>
    rcases caller : x.below with _ | ⟨s, below⟩
    · have same := Stepped.halt at_code turn caller
      simpa [Execution.move, turn, record, noted, reply, caller] using same
    · have same := Stepped.finish at_code turn caller
      simpa [Execution.move, turn, record, noted, signalled, reply, advance, caller] using same

theorem work_stepped {x : Execution E} {s : Suspended E} (at_bridge : x.focus = .bridge s) :
    Stepped x (x.work s) := by
  rcases next : s.todo with _ | ⟨t, todo⟩
  · have same := Stepped.ended at_bridge next
    simpa [work, next, record] using same
  · by_cases call : ∃ k, t = .call k
    · obtain ⟨k, rfl⟩ := call
      have same := Stepped.called at_bridge next
      simpa [work, next, record] using same
    · have no_call : ∀ k, t ≠ .call k := fun k e => call ⟨k, e⟩
      have same := Stepped.worked at_bridge next no_call
      cases t with
      | call k => exact absurd rfl (no_call k)
      | _ => simpa [work, next, record, signalled, advance] using same

theorem step_cases {x y : Execution E} (stepped : x.step = some y) : Stepped x y := by
  rcases at_focus : x.focus with _ | ⟨k, a⟩ | s
  · simp [step, at_focus] at stepped
  · have eq : x.move k a = y := by simpa [step, at_focus] using stepped
    exact eq ▸ move_stepped at_focus
  · have eq : x.work s = y := by simpa [step, at_focus] using stepped
    exact eq ▸ work_stepped at_focus

@[simp] theorem run_zero (x : Execution E) : x.run 0 = x := rfl

theorem run_halted {x : Execution E} (halted : x.step = none) (n : Nat) : x.run n = x := by
  cases n with
  | zero => rfl
  | succ n => simp [run, halted]

theorem run_add (x : Execution E) (m n : Nat) : x.run (m + n) = (x.run m).run n := by
  induction m generalizing x with
  | zero => rw [Nat.zero_add, run_zero]
  | succ m ih =>
    rw [Nat.succ_add]
    cases next : x.step with
    | none => rw [run_halted next, run_halted next, run_halted next]
    | some y =>
      simp only [run, next]
      exact ih y

theorem run_of_halted_le {x : Execution E} {m n : Nat} (halted : (x.run m).step = none)
    (le : m ≤ n) : x.run n = x.run m := by
  have split : m + (n - m) = n := by omega
  rw [← split, run_add, run_halted halted]

theorem run_of_halted {x : Execution E} {P : Execution E → Prop} {l m : Nat}
    (halted : (x.run m).step = none) (le : l ≤ m) (until_then : ∀ n ≤ m, l ≤ n → P (x.run n))
    (n : Nat) (after : l ≤ n) : P (x.run n) := by
  by_cases early : n ≤ m
  · exact until_then n early after
  · rw [run_of_halted_le halted (Nat.le_of_not_le early)]
    exact until_then m (Nat.le_refl m) le

theorem run_succ_of_step {x y : Execution E} {n : Nat} (stepped : (x.run n).step = some y) :
    x.run (n + 1) = y := by
  rw [run_add]
  simp [run, stepped]

theorem run_succ_of_halted {x : Execution E} {n : Nat} (halted : (x.run n).step = none) :
    x.run (n + 1) = x.run n := by
  rw [run_add, run_halted halted]

theorem run_succ_cases (x : Execution E) (n : Nat) :
    x.run (n + 1) = x.run n ∨ Stepped (x.run n) (x.run (n + 1)) := by
  cases next : (x.run n).step with
  | none => exact Or.inl (run_succ_of_halted next)
  | some y =>
    rw [run_succ_of_step next]
    exact Or.inr (step_cases next)

theorem reaches_run (x : Execution E) (n : Nat) : Reaches x (x.run n) := by
  induction n with
  | zero => exact .refl x
  | succ n ih =>
    cases next : (x.run n).step with
    | none => rwa [run_succ_of_halted next]
    | some y => rw [run_succ_of_step next]; exact .step ih next

theorem Reaches.exists_run {x y : Execution E} (reached : Reaches x y) : ∃ n, y = x.run n := by
  induction reached with
  | refl => exact ⟨0, rfl⟩
  | step _ stepped ih =>
    obtain ⟨n, rfl⟩ := ih
    exact ⟨n + 1, (run_succ_of_step stepped).symm⟩

/-- What holds at the start and is kept by every step holds throughout a run. -/
theorem run_invariant {x : Execution E} {P : Execution E → Prop} (start : P x)
    (kept : ∀ y z, P y → Stepped y z → P z) (n : Nat) : P (x.run n) := by
  induction n with
  | zero => exact start
  | succ n ih =>
    rcases run_succ_cases x n with same | stepped
    · rwa [same]
    · exact kept _ _ ih stepped

/-- The code in focus is about to perform a command. -/
def Performs (x : Execution E) (c : Command Obj τ) : Prop :=
  ∃ (k : Call Obj) (a : E.Activity) (state : E.State) (notes : List E.Note)
    (resume : c.Answer → E.Activity),
    x.focus = .code k a ∧ E.next k x.world x.state a = ⟨state, notes, .command c resume⟩

omit [Traced Obj] in
theorem Performs.at_code {x : Execution E} {c : Command Obj τ} (performs : x.Performs c) :
    ∃ (k : Call Obj) (a : E.Activity), x.focus = .code k a ∧
      (x.move k a).world = (c.perform x.world).world := by
  obtain ⟨k, a, state, notes, resume, at_code, turn⟩ := performs
  exact ⟨k, a, at_code, by simp [move, turn, record]⟩

theorem Performs.run_succ {x : Execution E} {n : Nat} {c : Command Obj τ}
    (performs : (x.run n).Performs c) :
    (x.run (n + 1)).world = (c.perform (x.run n).world).world := by
  obtain ⟨k, a, at_code, same⟩ := performs.at_code
  have stepped : (x.run n).step = some ((x.run n).move k a) := by rw [step, at_code]
  rw [run_succ_of_step stepped, same]

def performed? (x : Execution E) : Option (Command Obj τ) :=
  match x.focus with
  | .code k a =>
    match (E.next k x.world x.state a).move with
    | .command c _ => some c
    | _ => none
  | _ => none

omit [Traced Obj] in
theorem Performs.performed? {x : Execution E} {c : Command Obj τ} (performs : x.Performs c) :
    x.performed? = some c := by
  obtain ⟨k, a, state, notes, resume, at_code, turn⟩ := performs
  simp only [Execution.performed?, at_code, turn]

omit [Traced Obj] in
theorem performs_of_performed? {x : Execution E} {c : Command Obj τ}
    (next : x.performed? = some c) : x.Performs c := by
  unfold performed? at next
  split at next
  · rename_i k a at_code
    split at next
    · rename_i c' resume move
      cases next
      exact ⟨k, a, _, _, resume, at_code, by rw [← move]⟩
    · cases next
  · cases next

/-- The code in focus, that of the call `k`, is about to ask for a procedure and to go on with what
`resume` makes of its answer. -/
def Requests (x : Execution E) (k : Call Obj) (p : Procedure) (resume : p.Answer → E.Activity) :
    Prop :=
  ∃ (a : E.Activity) (state : E.State) (notes : List E.Note),
    x.focus = .code k a ∧ E.next k x.world x.state a = ⟨state, notes, .procedure p resume⟩

theorem Requests.run_one {x : Execution E} {k : Call Obj} {p : Procedure}
    {resume : p.Answer → E.Activity} (requests : x.Requests k p resume) :
    (x.run 1).focus = .bridge ⟨k, p, resume, (Procedure.start x.world p).first,
        (Procedure.start x.world p).progress⟩ ∧
      (x.run 1).below = x.below ∧ (x.run 1).world = (Procedure.start x.world p).world := by
  obtain ⟨a, state, notes, at_code, turn⟩ := requests
  have stepped : (x.run 0).step = some (x.move k a) := by rw [run_zero, step, at_code]
  rw [run_succ_of_step stepped]
  simp [move, turn, record, advance]

def requested? (x : Execution E) : Option Procedure :=
  match x.focus with
  | .code k a =>
    match (E.next k x.world x.state a).move with
    | .procedure p _ => some p
    | _ => none
  | _ => none

omit [Traced Obj] in
theorem Requests.requested? {x : Execution E} {k : Call Obj} {p : Procedure}
    {resume : p.Answer → E.Activity} (requests : x.Requests k p resume) :
    x.requested? = some p := by
  obtain ⟨a, state, notes, at_code, turn⟩ := requests
  simp only [Execution.requested?, at_code, turn]

omit [Traced Obj] in
theorem requests_of_requested? {x : Execution E} {p : Procedure}
    (asked : x.requested? = some p) : ∃ k resume, x.Requests k p resume := by
  unfold requested? at asked
  split at asked
  · rename_i k a at_code
    split at asked
    · rename_i p' resume move
      cases asked
      exact ⟨k, resume, a, _, _, at_code, by rw [← move]⟩
    · cases asked
  · cases asked

end HostBridge.Execution
