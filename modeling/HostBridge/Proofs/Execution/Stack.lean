import HostBridge.Proofs.Execution.Run
/-!
# What is still to be done

The tasks of all procedures and the code that waits for them form one stack, the next thing first.
A step rewrites the top of it: code asks for more tasks, a call gives way to its code and the code
to what its reply leads to, and any other task to the tasks that it brings. What lies below is not
touched before it comes to the top.
-/

namespace HostBridge

variable {Obj τ : Type} [Facility τ] {E : Embedder Obj τ}

inductive Item (Obj : Type)
  | task (t : Task Obj)
  | code (k : Call Obj)

def Item.isCode : Item Obj → Bool
  | task _ => false
  | code _ => true

def Call.LeadsTo (τ : Type) (k : Call Obj) (S : Task Obj → Prop) : Prop :=
  ∀ (types : TypeId → TypeDescriptor) (w : World Obj τ) (p : Progress) (r : k.Reply),
    ∀ t ∈ (k.resume types w p r).first, S t

def Event.isQuiet : Event E → Bool
  | called _ | performed .. | signal _ => false
  | returned .. | began _ | ended .. | note _ => true

def Suspended.items (s : Suspended E) : List (Item Obj) := s.todo.map .task ++ [.code s.k]

namespace Execution

def stack (x : Execution E) : List (Item Obj) :=
  match x.focus with
  | .halted => []
  | .code k _ => .code k :: x.below.flatMap Suspended.items
  | .bridge s => s.items ++ x.below.flatMap Suspended.items

theorem stack_of_code {x : Execution E} {k : Call Obj} {a : E.Activity}
    (at_code : x.focus = .code k a) : x.stack = .code k :: x.below.flatMap Suspended.items := by
  rw [stack, at_code]

theorem stack_of_bridge {x : Execution E} {s : Suspended E} (at_bridge : x.focus = .bridge s) :
    x.stack = s.todo.map .task ++ .code s.k :: x.below.flatMap Suspended.items := by
  simp only [stack, at_bridge, Suspended.items, List.append_assoc, List.cons_append, List.nil_append]

theorem stack_of_first {x : Execution E} {s : Suspended E} {first todo : List (Task Obj)}
    (at_bridge : x.focus = .bridge s) (split : s.todo = first ++ todo) :
    x.stack = first.map .task ++
      (todo.map .task ++ .code s.k :: x.below.flatMap Suspended.items) := by
  rw [stack_of_bridge at_bridge, split, List.map_append, List.append_assoc]

omit [Facility τ] in
theorem countP_isCode_tasks (ts : List (Task Obj)) :
    (ts.map Item.task).countP Item.isCode = 0 := by
  induction ts with
  | nil => rfl
  | cons t ts ih => rwa [List.map_cons, List.countP_cons_of_neg (by simp [Item.isCode])]

variable [Traced Obj]

def AtTask (x : Execution E) (t : Task Obj) : Prop := ∃ rest, x.stack = .task t :: rest

def AtCode (x : Execution E) (k : Call Obj) : Prop := ∃ rest, x.stack = .code k :: rest

omit [Traced Obj] in
theorem AtTask.bridge {x : Execution E} {t : Task Obj} (next : x.AtTask t) :
    ∃ s todo, x.focus = .bridge s ∧ s.todo = t :: todo := by
  obtain ⟨rest, top⟩ := next
  rcases at_focus : x.focus with _ | _ | s
  · rw [stack, at_focus] at top
    exact nomatch top
  · rw [stack_of_code at_focus] at top
    exact nomatch top
  · rw [stack_of_bridge at_focus] at top
    rcases todo : s.todo with _ | ⟨u, more⟩
    · rw [todo] at top
      exact nomatch top
    · rw [todo] at top
      obtain ⟨same, _⟩ := List.cons.inj top
      exact ⟨s, more, rfl, Item.task.inj same ▸ todo⟩

omit [Traced Obj] in
theorem atTask_of_bridge {x : Execution E} {s : Suspended E} {t : Task Obj} {todo : List (Task Obj)}
    (at_bridge : x.focus = .bridge s) (next : s.todo = t :: todo) : x.AtTask t := by
  rw [AtTask, stack_of_bridge at_bridge, next]
  exact ⟨_, rfl⟩

omit [Traced Obj] in
theorem AtCode.not_atTask {x : Execution E} {k : Call Obj} (at_code : x.AtCode k) (t : Task Obj) :
    ¬ x.AtTask t := by
  intro at_task
  obtain ⟨_, code⟩ := at_code
  obtain ⟨_, task⟩ := at_task
  exact nomatch code.symm.trans task

omit [Traced Obj] in
theorem Performs.not_atTask {x : Execution E} {c : Command Obj τ} (performs : x.Performs c)
    (t : Task Obj) : ¬ x.AtTask t := by
  obtain ⟨k, a, state, notes, resume, here, turn⟩ := performs
  have at_code : x.AtCode k := ⟨_, stack_of_code here⟩
  exact at_code.not_atTask t

omit [Traced Obj] in
theorem Requests.atCode {x : Execution E} {k : Call Obj} {p : Procedure}
    {resume : p.Answer → E.Activity} (requests : x.Requests k p resume) : x.AtCode k := by
  obtain ⟨a, state, notes, at_code, turn⟩ := requests
  exact ⟨_, stack_of_code at_code⟩

/-- The code in focus, that of the call `k`, is about to return to the procedure that called it. -/
def Returns (x : Execution E) (k : Call Obj) (r : k.Reply) : Prop :=
  ∃ (a : E.Activity) (state : E.State) (notes : List E.Note),
    x.focus = .code k a ∧ x.below ≠ [] ∧ E.next k x.world x.state a = ⟨state, notes, .finish r⟩

omit [Traced Obj] in
theorem Returns.atCode {x : Execution E} {k : Call Obj} {r : k.Reply} (returns : x.Returns k r) :
    x.AtCode k := by
  obtain ⟨a, state, notes, at_code, called, turn⟩ := returns
  exact ⟨_, stack_of_code at_code⟩

omit [Traced Obj] in
theorem Returns.not_requests {x : Execution E} {k k' : Call Obj} {r : k.Reply} {p : Procedure}
    {resume : p.Answer → E.Activity} (returns : x.Returns k r) : ¬ x.Requests k' p resume := by
  intro requests
  obtain ⟨a, state, notes, at_code, called, turn⟩ := returns
  obtain ⟨a', state', notes', here, asks⟩ := requests
  obtain ⟨rfl, rfl⟩ := Focus.code.inj (at_code.symm.trans here)
  exact nomatch congrArg Turn.move (turn.symm.trans asks)

omit [Traced Obj] in
theorem Performs.not_requests {x : Execution E} {c : Command Obj τ} (performs : x.Performs c)
    {k : Call Obj} {p : Procedure} {resume : p.Answer → E.Activity} : ¬ x.Requests k p resume := by
  intro requests
  obtain ⟨k', a, state, notes, resume', at_code, turn⟩ := performs
  obtain ⟨a', state', notes', here, asks⟩ := requests
  obtain ⟨rfl, rfl⟩ := Focus.code.inj (at_code.symm.trans here)
  exact nomatch congrArg Turn.move (turn.symm.trans asks)

omit [Traced Obj] in
theorem Returns.not_performs {x : Execution E} {k : Call Obj} {r : k.Reply} {c : Command Obj τ}
    (returns : x.Returns k r) : ¬ x.Performs c := by
  intro performs
  obtain ⟨a, state, notes, at_code, called, turn⟩ := returns
  obtain ⟨k', a', state', notes', resume, here, does⟩ := performs
  obtain ⟨rfl, rfl⟩ := Focus.code.inj (at_code.symm.trans here)
  exact nomatch congrArg Turn.move (turn.symm.trans does)

def Grows (x y : Execution E) (signals : List Signal) (last : List (Event E)) : Prop :=
  ∃ quiet, (∀ v ∈ quiet, v.isQuiet = true) ∧
    y.history = last ++ signalled (quiet ++ x.history) signals

/-- What a step does to the stack, to the world and to the history. -/
inductive Rewrites (x y : Execution E) : Prop
  /-- Code goes on, a procedure has no more tasks, or nothing is left to do. -/
  | idle (no_task : ∀ t, ¬ x.AtTask t) (stack : y.stack = x.stack) (world : y.world = x.world)
      (history : Grows x y [] [])
  | performed {c : Command Obj τ} (performs : x.Performs c) (stack : y.stack = x.stack)
      (world : y.world = (c.perform x.world).world)
      (history : Grows x y (c.perform x.world).signals [.performed c (c.perform x.world).answer])
  | began {k : Call Obj} {p : Procedure} {resume : p.Answer → E.Activity}
      (requests : x.Requests k p resume)
      (stack : y.stack = (Procedure.start x.world p).first.map .task ++ x.stack)
      (world : y.world = (Procedure.start x.world p).world)
      (history : Grows x y (Procedure.start x.world p).signals [])
  | returned {k : Call Obj} {r : k.Reply} {p : Progress} {rest : List (Item Obj)}
      (top : x.stack = .code k :: rest)
      (stack : y.stack = (k.resume E.types x.world p r).first.map .task ++ rest)
      (world : y.world = (k.resume E.types x.world p r).world)
      (history : Grows x y (k.resume E.types x.world p r).signals [])
      (returns : x.Returns k r)
  | halted {k : Call Obj} (top : x.stack = [.code k]) (stack : y.stack = [])
      (world : y.world = x.world) (history : Grows x y [] [])
  | called {k : Call Obj} {rest : List (Item Obj)} (top : x.stack = .task (.call k) :: rest)
      (stack : y.stack = .code k :: rest) (world : y.world = x.world)
      (history : Grows x y [] [.called k])
  | worked {t : Task Obj} {p : Progress} {rest : List (Item Obj)}
      (top : x.stack = .task t :: rest) (no_call : ∀ k, t ≠ .call k)
      (stack : y.stack =
        (t.run ⟨E.types, E.alive x.state x.world.heap⟩ x.world p).first.map .task ++ rest)
      (world : y.world = (t.run ⟨E.types, E.alive x.state x.world.heap⟩ x.world p).world)
      (history :
        Grows x y (t.run ⟨E.types, E.alive x.state x.world.heap⟩ x.world p).signals [])

variable {x y : Execution E}

omit [Traced Obj] in
theorem quiet_notes {notes : List E.Note} :
    ∀ v ∈ (notes.map Event.note).reverse, v.isQuiet = true := by
  intro v mem
  obtain ⟨note, _, rfl⟩ := List.mem_map.mp (List.mem_reverse.mp mem)
  rfl

omit [Traced Obj] in
theorem quiet_cons {v : Event E} (quiet : v.isQuiet = true) {notes : List E.Note} :
    ∀ u ∈ v :: (notes.map Event.note).reverse, u.isQuiet = true := by
  intro u mem
  rcases List.mem_cons.mp mem with rfl | later
  · exact quiet
  · exact quiet_notes u later

theorem Stepped.rewrites (stepped : Stepped x y) : Rewrites x y := by
  cases stepped with
  | proceed at_code turn =>
    apply Rewrites.idle
    · exact AtCode.not_atTask ⟨_, stack_of_code at_code⟩
    · rw [stack_of_code at_code, stack_of_code rfl]
    · rfl
    · exact ⟨_, quiet_notes, rfl⟩
  | command at_code turn =>
    apply Rewrites.performed ⟨_, _, _, _, _, at_code, turn⟩
    · rw [stack_of_code at_code, stack_of_code rfl]
    · rfl
    · exact ⟨_, quiet_notes, rfl⟩
  | procedure at_code turn =>
    apply Rewrites.began ⟨_, _, _, at_code, turn⟩
    · rw [stack_of_code at_code, stack_of_bridge rfl]
    · rfl
    · exact ⟨_, quiet_cons rfl, rfl⟩
  | halt at_code turn alone =>
    apply Rewrites.halted
    · rw [stack_of_code at_code, alone]
      rfl
    · rfl
    · rfl
    · exact ⟨_, quiet_cons rfl, rfl⟩
  | @finish k _ _ _ r s below at_code turn caller =>
    apply Rewrites.returned (r := r) (p := s.progress)
    · rw [stack_of_code at_code, caller, List.flatMap_cons, Suspended.items, List.append_assoc]
    · rw [stack_of_first rfl rfl]
      rfl
    · rfl
    · exact ⟨_, quiet_cons rfl, rfl⟩
    · exact ⟨_, _, _, at_code, by rw [caller]; exact List.cons_ne_nil s below, turn⟩
  | @ended s at_bridge done =>
    have top : x.stack = .code s.k :: x.below.flatMap Suspended.items := by
      rw [stack_of_bridge at_bridge, done]
      rfl
    apply Rewrites.idle
    · exact AtCode.not_atTask ⟨_, top⟩
    · rw [top, stack_of_code rfl]
    · rfl
    · exact ⟨[_], fun v mem => List.mem_singleton.mp mem ▸ rfl, rfl⟩
  | called at_bridge next =>
    apply Rewrites.called
    · rw [stack_of_bridge at_bridge, next]
      rfl
    · rw [stack_of_code rfl, List.flatMap_cons, Suspended.items, List.append_assoc]
      rfl
    · rfl
    · exact ⟨[], (fun v mem => nomatch mem), rfl⟩
  | worked at_bridge next no_call =>
    refine .worked ?_ no_call (stack_of_first rfl rfl) rfl ⟨[], (fun v mem => nomatch mem), rfl⟩
    rw [stack_of_bridge at_bridge, next]
    rfl

theorem stack_of_halted (halted : x.step = none) : x.stack = [] := by
  rcases at_focus : x.focus with _ | _ | _
  · rw [stack, at_focus]
  · simp [step, at_focus] at halted
  · simp [step, at_focus] at halted

theorem run_rewrites (x : Execution E) (n : Nat) : Rewrites (x.run n) (x.run (n + 1)) := by
  cases next : (x.run n).step with
  | none =>
    have nothing := stack_of_halted next
    apply Rewrites.idle
    · intro t at_task
      obtain ⟨_, top⟩ := at_task
      cases nothing.symm.trans top
    · rw [run_succ_of_halted next]
    · rw [run_succ_of_halted next]
    · exact ⟨[], (fun v mem => by cases mem), congrArg history (run_succ_of_halted next)⟩
  | some y =>
    rw [run_succ_of_step next]
    exact (step_cases next).rewrites

theorem Performs.run_grows {n : Nat} {c : Command Obj τ} (performs : (x.run n).Performs c) :
    Grows (x.run n) (x.run (n + 1)) (c.perform (x.run n).world).signals
      [.performed c (c.perform (x.run n).world).answer] := by
  obtain ⟨k, a, state, notes, resume, at_code, turn⟩ := performs
  have stepped : (x.run n).step = some ((x.run n).move k a) := by rw [step, at_code]
  rw [run_succ_of_step stepped]
  refine ⟨(notes.map Event.note).reverse, quiet_notes, ?_⟩
  simp [move, turn, record, signalled]

theorem Returns.stack {n : Nat} {k : Call Obj} {r : k.Reply} (returns : (x.run n).Returns k r) :
    ∃ p rest, (x.run n).stack = .code k :: rest ∧ (x.run (n + 1)).stack =
      (k.resume E.types (x.run n).world p r).first.map .task ++ rest := by
  obtain ⟨a, state, notes, at_code, called, turn⟩ := returns
  obtain ⟨s, below, caller⟩ := List.exists_cons_of_ne_nil called
  have stepped : (x.run n).step = some ((x.run n).move k a) := by rw [step, at_code]
  have after : (x.run (n + 1)).focus = .bridge { s with
        todo := (k.resume E.types (x.run n).world s.progress r).first ++ s.todo
        progress := (k.resume E.types (x.run n).world s.progress r).progress } ∧
      (x.run (n + 1)).below = below := by
    rw [run_succ_of_step stepped]
    simp [move, turn, record, reply, caller, advance]
  refine ⟨s.progress, _, stack_of_code at_code, ?_⟩
  rw [stack_of_first after.1 rfl, after.2, caller, List.flatMap_cons, Suspended.items,
    List.append_assoc]
  rfl

theorem AtTask.state_run_succ {n : Nat} {t : Task Obj} (next : (x.run n).AtTask t) :
    (x.run (n + 1)).state = (x.run n).state := by
  obtain ⟨rest, top⟩ := next
  rcases run_succ_cases x n with same | stepped
  · rw [same]
  · generalize x.run (n + 1) = y at stepped
    cases stepped with
    | proceed at_code | command at_code | procedure at_code | halt at_code | finish at_code =>
      exact nomatch top.symm.trans (stack_of_code at_code)
    | ended | called | worked => rfl

theorem Returns.state_run_succ {n : Nat} {k : Call Obj} {r : k.Reply}
    (returns : (x.run n).Returns k r) : ∃ a notes,
      E.next k (x.run n).world (x.run n).state a = ⟨(x.run (n + 1)).state, notes, .finish r⟩ := by
  obtain ⟨a, state, notes, at_code, called, turn⟩ := returns
  obtain ⟨s, below, caller⟩ := List.exists_cons_of_ne_nil called
  have stepped : (x.run n).step = some ((x.run n).move k a) := by rw [step, at_code]
  refine ⟨a, notes, ?_⟩
  rw [turn, run_succ_of_step stepped]
  simp [move, turn, record, reply, caller, advance]

omit [Traced Obj] in
theorem Performs.unique {c c' : Command Obj τ} (performs : x.Performs c)
    (performs' : x.Performs c') : c = c' := by
  obtain ⟨k, a, state, notes, resume, at_code, turn⟩ := performs
  obtain ⟨k', a', state', notes', resume', at_code', turn'⟩ := performs'
  obtain ⟨rfl, rfl⟩ := Focus.code.inj (at_code.symm.trans at_code')
  exact (Move.command.inj (congrArg Turn.move (turn.symm.trans turn'))).1

omit [Traced Obj] in
theorem Requests.unique {k k' : Call Obj} {p p' : Procedure} {resume : p.Answer → E.Activity}
    {resume' : p'.Answer → E.Activity} (requests : x.Requests k p resume)
    (requests' : x.Requests k' p' resume') : p = p' := by
  obtain ⟨a, state, notes, at_code, asks⟩ := requests
  obtain ⟨a', state', notes', at_code', asks'⟩ := requests'
  obtain ⟨rfl, rfl⟩ := Focus.code.inj (at_code.symm.trans at_code')
  exact (Move.procedure.inj (congrArg Turn.move (asks.symm.trans asks'))).1

theorem Rewrites.of_task {t : Task Obj} {rest : List (Item Obj)} (rewrites : Rewrites x y)
    (top : x.stack = .task t :: rest) (no_call : ∀ k, t ≠ .call k) :
    ∃ p, y.stack = (t.run ⟨E.types, E.alive x.state x.world.heap⟩ x.world p).first.map .task ++ rest ∧
      y.world = (t.run ⟨E.types, E.alive x.state x.world.heap⟩ x.world p).world := by
  cases rewrites with
  | idle no_task => exact absurd ⟨rest, top⟩ (no_task t)
  | performed performs => exact absurd ⟨rest, top⟩ (performs.not_atTask t)
  | began requests => exact absurd ⟨rest, top⟩ (requests.atCode.not_atTask t)
  | returned here | halted here => exact nomatch top.symm.trans here
  | called here =>
    obtain ⟨same, _⟩ := List.cons.inj (top.symm.trans here)
    exact absurd (Item.task.inj same) (no_call _)
  | worked here _ stack world =>
    obtain ⟨same, rfl⟩ := List.cons.inj (top.symm.trans here)
    obtain rfl := Item.task.inj same
    exact ⟨_, stack, world⟩

theorem Rewrites.of_call {k : Call Obj} {rest : List (Item Obj)} (rewrites : Rewrites x y)
    (top : x.stack = .task (.call k) :: rest) :
    y.stack = .code k :: rest ∧ y.world = x.world ∧ Grows x y [] [.called k] := by
  cases rewrites with
  | idle no_task => exact absurd ⟨rest, top⟩ (no_task _)
  | performed performs => exact absurd ⟨rest, top⟩ (performs.not_atTask _)
  | began requests => exact absurd ⟨rest, top⟩ (requests.atCode.not_atTask _)
  | returned here | halted here => exact nomatch top.symm.trans here
  | called here stack world history =>
    obtain ⟨same, rfl⟩ := List.cons.inj (top.symm.trans here)
    obtain rfl := Task.call.inj (Item.task.inj same)
    exact ⟨stack, world, history⟩
  | worked here no_call =>
    obtain ⟨same, _⟩ := List.cons.inj (top.symm.trans here)
    exact absurd (Item.task.inj same).symm (no_call k)

/-- Only the top of the stack is replaced. -/
theorem Rewrites.below {i : Item Obj} {rest : List (Item Obj)} (rewrites : Rewrites x y)
    (top : x.stack = i :: rest) : ∃ pre, y.stack = pre ++ rest := by
  cases rewrites with
  | idle _ stack | performed _ stack => exact ⟨[i], by rw [stack, top]; rfl⟩
  | began _ stack => exact ⟨_, by rw [stack, top, List.append_cons]⟩
  | returned here stack | worked here _ stack =>
    obtain ⟨rfl, rfl⟩ := List.cons.inj (top.symm.trans here)
    exact ⟨_, stack⟩
  | @called k _ here stack =>
    obtain ⟨rfl, rfl⟩ := List.cons.inj (top.symm.trans here)
    exact ⟨[.code k], stack⟩
  | halted here stack =>
    obtain ⟨rfl, rfl⟩ := List.cons.inj (top.symm.trans here)
    exact ⟨[], stack⟩

theorem Rewrites.below_append {pre rest : List (Item Obj)} (rewrites : Rewrites x y)
    (here : x.stack = pre ++ rest) (more : pre ≠ []) : ∃ pre', y.stack = pre' ++ rest := by
  obtain ⟨i, is, rfl⟩ := List.exists_cons_of_ne_nil more
  obtain ⟨pushed, stack⟩ : ∃ pushed, y.stack = pushed ++ (is ++ rest) := rewrites.below here
  exact ⟨pushed ++ is, by rw [stack, List.append_assoc]⟩

theorem Rewrites.of_code {k : Call Obj} {above below : List (Item Obj)} (rewrites : Rewrites x y)
    (here : x.stack = above ++ .code k :: below) :
    (∃ above', y.stack = above' ++ .code k :: below) ∨
      above = [] ∧ ((∃ r p, x.Returns k r ∧
        y.stack = (k.resume E.types x.world p r).first.map .task ++ below) ∨
        below = [] ∧ y.stack = []) := by
  rcases above with _ | ⟨i, above⟩
  · cases rewrites with
    | idle _ stack | performed _ stack => exact Or.inl ⟨[], stack.trans here⟩
    | began requests stack => exact Or.inl ⟨_, by rw [stack, here]; rfl⟩
    | called top | worked top => exact nomatch here.symm.trans top
    | returned top stack _ _ returns =>
      obtain ⟨same, rfl⟩ := List.cons.inj (here.symm.trans top)
      obtain rfl := Item.code.inj same
      exact Or.inr ⟨rfl, Or.inl ⟨_, _, returns, stack⟩⟩
    | halted top stack =>
      obtain ⟨_, nothing⟩ := List.cons.inj (here.symm.trans top)
      exact Or.inr ⟨rfl, Or.inr ⟨nothing, stack⟩⟩
  · obtain ⟨pushed, stack⟩ : ∃ pushed, y.stack = pushed ++ (above ++ .code k :: below) :=
      rewrites.below here
    exact Or.inl ⟨pushed ++ above, by rw [stack, List.append_assoc]⟩

/-- A task on the stack comes next before it leaves it. -/
theorem atTask_of_mem {m n : Nat} {t : Task Obj} (mem : .task t ∈ (x.run m).stack) (le : m ≤ n) :
    .task t ∈ (x.run n).stack ∨ ∃ l, m ≤ l ∧ l < n ∧ (x.run l).AtTask t := by
  induction le with
  | refl => exact Or.inl mem
  | @step n le ih =>
    rcases ih with still | ⟨l, after, before, next⟩
    · obtain ⟨i, rest, top⟩ := List.exists_cons_of_ne_nil (List.ne_nil_of_mem still)
      rw [top] at still
      rcases List.mem_cons.mp still with rfl | waits
      · exact Or.inr ⟨n, le, Nat.lt_succ_self n, rest, top⟩
      · obtain ⟨pushed, stack⟩ := (x.run_rewrites n).below top
        exact Or.inl (stack ▸ List.mem_append_right pushed waits)
    · exact Or.inr ⟨l, after, Nat.lt_succ_of_lt before, next⟩

omit [Traced Obj] in
theorem stack_ne_nil_of_task {t : Task Obj} {rest : List (Item Obj)}
    (top : x.stack = .task t :: rest) : rest ≠ [] := by
  have next : x.AtTask t := ⟨rest, top⟩
  obtain ⟨s, todo, at_bridge, first⟩ := next.bridge
  rw [stack_of_bridge at_bridge, first] at top
  obtain ⟨_, rfl⟩ := List.cons.inj top
  exact List.append_ne_nil_of_right_ne_nil _ (List.cons_ne_nil _ _)

def Unfinished (x : Execution E) (n : Nat) : Prop := ∀ m ≤ n, x.stack.length ≤ (x.run m).stack.length

/-- With the `n`th step the first thing on the stack is done with. -/
def FinishesAt (x : Execution E) (n : Nat) : Prop :=
  (∀ m < n, x.stack.length ≤ (x.run m).stack.length) ∧ (x.run n).stack.length < x.stack.length

theorem Unfinished.of_le {m n : Nat} (unfinished : x.Unfinished n) (le : m ≤ n) :
    x.Unfinished m :=
  fun l early => unfinished l (Nat.le_trans early le)

theorem FinishesAt.unfinished {m n : Nat} (finishes : x.FinishesAt n) (lt : m < n) :
    x.Unfinished m :=
  fun l early => finishes.1 l (Nat.lt_of_le_of_lt early lt)

theorem FinishesAt.exists_succ {n : Nat} (finishes : x.FinishesAt n) :
    ∃ m, n = m + 1 ∧ x.Unfinished m := by
  cases n with
  | zero => exact absurd finishes.2 (Nat.lt_irrefl _)
  | succ m => exact ⟨m, rfl, finishes.unfinished (Nat.lt_succ_self m)⟩

/-- What is not unfinished any more has been done with at some step. -/
theorem exists_finishesAt {n : Nat} (past : ¬ x.Unfinished n) : ∃ m ≤ n, x.FinishesAt m := by
  induction n with
  | zero =>
    exfalso
    apply past
    intro m le
    exact Nat.le_of_eq (by rw [Nat.le_zero.mp le, run_zero])
  | succ n ih =>
    by_cases before : x.Unfinished n
    · refine ⟨n + 1, Nat.le_refl _, fun m lt => before m (Nat.le_of_lt_succ lt), ?_⟩
      apply Nat.lt_of_not_le
      intro long
      apply past
      intro m le
      rcases Nat.le_succ_iff.mp le with earlier | rfl
      · exact before m earlier
      · exact long
    · obtain ⟨m, le, finishes⟩ := ih before
      exact ⟨m, Nat.le_succ_of_le le, finishes⟩

section Rest

variable {i : Item Obj} {rest : List (Item Obj)} {n : Nat}

theorem Unfinished.stack (unfinished : x.Unfinished n) (top : x.stack = i :: rest) :
    ∃ j pre, (x.run n).stack = j :: (pre ++ rest) := by
  induction n with
  | zero => exact ⟨i, [], top⟩
  | succ n ih =>
    obtain ⟨j, pre, here⟩ := ih (unfinished.of_le (Nat.le_succ n))
    obtain ⟨pushed, stack⟩ := (x.run_rewrites n).below here
    have long := unfinished (n + 1) (Nat.le_refl _)
    rw [top, stack] at long
    rcases split : pushed ++ pre with _ | ⟨j', pre'⟩
    · obtain ⟨rfl, rfl⟩ := List.append_eq_nil_iff.mp split
      simp only [List.length_cons, List.nil_append] at long
      omega
    · exact ⟨j', pre', by rw [stack, ← List.append_assoc, split]; rfl⟩

theorem FinishesAt.stack (finishes : x.FinishesAt n) (top : x.stack = i :: rest) :
    (x.run n).stack = rest := by
  obtain ⟨m, rfl, unfinished⟩ := finishes.exists_succ
  obtain ⟨j, pre, here⟩ := unfinished.stack top
  obtain ⟨pushed, stack⟩ := (x.run_rewrites m).below here
  have short := finishes.2
  rw [top, stack] at short
  simp only [List.length_append, List.length_cons] at short
  obtain rfl : pushed = [] := List.length_eq_zero_iff.mp (by omega)
  obtain rfl : pre = [] := List.length_eq_zero_iff.mp (by omega)
  exact stack

end Rest

structure Keeps (τ : Type) (S : Task Obj → Prop) : Prop where
  leads : ∀ k, S (.call k) → k.LeadsTo τ S
  works : ∀ t, S t → (∀ k, t ≠ .call k) → ∀ (env : Surroundings) (w : World Obj τ) (p : Progress),
    ∀ u ∈ (t.run env w p).first, S u

omit [Facility τ] in
theorem Keeps.or {S D : Task Obj → Prop} (keeps : Keeps τ S)
    (leads : ∀ k, D (.call k) → k.LeadsTo τ S)
    (works : ∀ t, D t → (∀ k, t ≠ .call k) → ∀ (env : Surroundings) (w : World Obj τ)
      (p : Progress), ∀ u ∈ (t.run env w p).first, S u) : Keeps τ fun t => S t ∨ D t := by
  constructor
  · intro k either types w p r t mem
    rcases either with old | new
    · exact Or.inl (keeps.leads k old types w p r t mem)
    · exact Or.inl (leads k new types w p r t mem)
  · intro t either no_call env w p u mem
    rcases either with old | new
    · exact Or.inl (keeps.works t old no_call env w p u mem)
    · exact Or.inl (works t new no_call env w p u mem)

/-- The things on the stack are tasks of the kind, or a call that leads to such tasks is going on
above them. -/
inductive Confined (τ : Type) (S : Task Obj → Prop) : List (Item Obj) → Prop
  | own (todo : List (Task Obj)) (tasks : ∀ t ∈ todo, S t) : Confined τ S (todo.map .task)
  | calling (above : List (Item Obj)) {k : Call Obj} {todo : List (Task Obj)}
      (leads : k.LeadsTo τ S) (tasks : ∀ t ∈ todo, S t) :
      Confined τ S (above ++ .code k :: todo.map .task)

omit [Traced Obj] in
/-- Without code among the things on top, a task of the kind comes next. -/
theorem Confined.atTask {S : Task Obj → Prop} {pre rest : List (Item Obj)}
    (confined : Confined τ S pre) (here : x.stack = pre ++ rest) (more : pre ≠ [])
    (no_code : pre.countP Item.isCode = 0) : ∃ t, x.AtTask t ∧ S t := by
  cases confined with
  | @own todo tasks =>
    rcases todo with _ | ⟨t, todo⟩
    · exact absurd rfl more
    · exact ⟨t, ⟨_, here⟩, tasks t List.mem_cons_self⟩
  | calling => simp [Item.isCode] at no_code

theorem Rewrites.confined {S : Task Obj → Prop} (keeps : Keeps τ S) {pre rest : List (Item Obj)}
    (rewrites : Rewrites x y) (confined : Confined τ S pre) (here : x.stack = pre ++ rest)
    (more : pre ≠ []) : ∃ pre', y.stack = pre' ++ rest ∧ Confined τ S pre' := by
  cases confined with
  | @own todo tasks =>
    rcases todo with _ | ⟨t, todo⟩
    · exact absurd rfl more
    have of_kind : S t := tasks t List.mem_cons_self
    have behind : ∀ u ∈ todo, S u := fun u mem => tasks u (List.mem_cons_of_mem t mem)
    cases rewrites with
    | idle _ stack | performed _ stack => exact ⟨_, stack.trans here, .own _ tasks⟩
    | began requests stack =>
      obtain ⟨_, top⟩ := requests.atCode
      exact nomatch here.symm.trans top
    | returned top | halted top => exact nomatch here.symm.trans top
    | @called k _ top stack =>
      obtain ⟨same, rfl⟩ := List.cons.inj (here.symm.trans top)
      obtain rfl := Item.task.inj same
      exact ⟨.code k :: todo.map .task, stack, .calling [] (keeps.leads k of_kind) behind⟩
    | @worked t' p _ top no_call stack =>
      obtain ⟨same, rfl⟩ := List.cons.inj (here.symm.trans top)
      obtain rfl := Item.task.inj same
      refine ⟨_, stack.trans (List.append_assoc ..).symm, ?_⟩
      rw [← List.map_append]
      apply Confined.own
      intro u mem
      rcases List.mem_append.mp mem with first | later
      · exact keeps.works t of_kind no_call _ _ _ u first
      · exact behind u later
  | @calling above k todo leads tasks =>
    have split : x.stack = above ++ .code k :: (todo.map .task ++ rest) := by
      rw [here, List.append_assoc]
      rfl
    -- What is above the code changes, or the code returns and brings tasks of the kind.
    rcases rewrites.of_code split with ⟨above', stack⟩ | ⟨_, ⟨r, p, _, stack⟩ | ⟨nothing, stack⟩⟩
    · exact ⟨above' ++ .code k :: todo.map .task, by rw [stack, List.append_assoc]; rfl,
        .calling _ leads tasks⟩
    · refine ⟨_, stack.trans (List.append_assoc ..).symm, ?_⟩
      rw [← List.map_append]
      apply Confined.own
      intro u mem
      rcases List.mem_append.mp mem with first | later
      · exact leads _ _ _ _ u first
      · exact tasks u later
    · obtain ⟨_, rfl⟩ := List.append_eq_nil_iff.mp nothing
      exact ⟨[], stack, .own [] fun t mem => nomatch mem⟩

end Execution

end HostBridge
