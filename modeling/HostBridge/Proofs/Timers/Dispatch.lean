import HostBridge.Proofs.Timers.Retirement
/-!
# What a dispatched fire does

A fire that finds its timer in a live context calls the callback once, or if it carries an error it
reports one exception. Any other fire is dropped.
-/

namespace HostBridge

variable {Obj τ : Type}

/-- The timer that a dispatched fire finds: it is active in a live context that may run script. -/
def World.armed? (w : World Obj τ) (t : Target) : Option (Entry TimerId Timer) :=
  if w.isLive t.context then w.ready? t.context t.timer else none

def Call.FollowsUp : Call Obj → Prop
  | report .. | job _ | event .. => True
  | _ => False

def Task.Closes (t : Task Obj) : Prop := t.Trails ∨ ∃ c id, t = .retire c id

theorem Task.keeps_closes [Traced Obj] : Execution.Keeps τ (@Task.Closes Obj) := by
  apply Task.keeps_trails.or
  · rintro k ⟨c, id, same⟩
    exact nomatch same
  · rintro t ⟨c, id, rfl⟩ _ env w p u mem
    exact nomatch mem

theorem Task.Closes.followsUp {k : Call Obj} (closes : (Task.call k).Closes) : k.FollowsUp := by
  rcases closes with trails | ⟨_, _, same⟩
  · exact trails
  · exact nomatch same

namespace Execution

variable [Facility τ] {E : Embedder Obj τ} {x : Execution E}

def nextCall? (x : Execution E) : Option (Call Obj) :=
  match x.stack with
  | .task (.call k) :: _ => some k
  | _ => none

theorem atTask_of_nextCall? {k : Call Obj} (next : x.nextCall? = some k) : x.AtTask (.call k) := by
  unfold nextCall? at next
  split at next
  · rename_i k' rest top
    obtain rfl := Option.some.inj next
    exact ⟨rest, top⟩
  · exact nomatch next

theorem nextCall?_of_task {t : Task Obj} {rest : List (Item Obj)} (top : x.stack = .task t :: rest)
    (no_call : ∀ k, t ≠ .call k) : x.nextCall? = none := by
  unfold nextCall?
  split
  · rename_i k _ here
    obtain ⟨same, _⟩ := List.cons.inj (top.symm.trans here)
    exact absurd (Item.task.inj same) (no_call k)
  · rfl

variable [Traced Obj]

/-- The calls that are made in the first `n` steps by what comes next, not by code that it runs. -/
def made (x : Execution E) : Nat → List (Call Obj)
  | 0 => []
  | n + 1 => x.made n ++
      if (x.run n).nesting = x.nesting then (x.run n).nextCall?.toList else []

structure Delivers (x : Execution E) (f : Fire) : Prop where
  callback : ∀ e, x.world.armed? f.target = some e → f.error = none →
    (x.run 2).Invokes f.target.context e ∧ ∀ n, 2 ≤ n → x.Unfinished n →
      ∃ later, x.made (n + 1) = Task.timerCall f.target.context e :: later ∧
        ∀ k ∈ later, k.FollowsUp
  exception : ∀ e message, x.world.armed? f.target = some e → f.error = some message →
    (∀ n, x.Unfinished n → ∃ exception, x.made n <+:
        [.typeError f.target.context message, .report f.target.context exception]) ∧
      ∀ n, x.FinishesAt n → ∃ exception, x.made n =
        [.typeError f.target.context message, .report f.target.context exception]
  dropped : x.world.armed? f.target = none →
    ∃ n ≤ 2, x.FinishesAt n ∧ x.made n = [] ∧ ∀ m ≤ n, (x.run m).world = x.world

section

variable {f : Fire} {e : Entry TimerId Timer} {rest : List (Item Obj)}

omit [Facility τ] [Traced Obj] in
theorem key_of_armed? {w : World Obj τ} {t : Target} (armed : w.armed? t = some e) :
    w.isLive t.context = true ∧ e.key = t.timer ∧ w.ready? t.context t.timer = some e := by
  unfold World.armed? at armed
  split at armed
  · rename_i live
    obtain ⟨a, _, _, entry⟩ := World.ready?_eq_some.mp armed
    exact ⟨live, Registry.key_of_entry entry, armed⟩
  · exact nomatch armed

theorem dispatch_of_live (top : x.stack = .task (.dispatch f) :: rest)
    (live : x.world.isLive f.target.context = true) :
    (x.run 1).stack = .task (.fire f.target.context f.target.timer f.error) :: rest ∧
      (x.run 1).world = x.world := by
  obtain ⟨p, stack, world⟩ := (x.run_rewrites 0).of_task top fun k same => nomatch same
  have asked : (Task.run ⟨E.types, E.alive x.state x.world.heap⟩ x.world p (.dispatch f)).first =
      [.fire f.target.context f.target.timer f.error] := by
    rw [Task.run, if_pos live]
  exact ⟨by rw [stack, run_zero, asked]; rfl, world⟩

theorem dispatch_of_not_live (top : x.stack = .task (.dispatch f) :: rest)
    (gone : x.world.isLive f.target.context = false) :
    (x.run 1).stack = rest ∧ (x.run 1).world = x.world := by
  obtain ⟨p, stack, world⟩ := (x.run_rewrites 0).of_task top fun k same => nomatch same
  have asked : (Task.run ⟨E.types, E.alive x.state x.world.heap⟩ x.world p (.dispatch f)).first =
      [] := by
    rw [Task.run, if_neg (by simp [gone])]
  exact ⟨by rw [stack, run_zero, asked]; rfl, world⟩

theorem made_one (top : x.stack = .task (.dispatch f) :: rest) : x.made 1 = [] := by
  have no_call : x.nextCall? = none := nextCall?_of_task top fun k same => nomatch same
  rw [made, made, run_zero, no_call]
  simp

theorem made_two (top : x.stack = .task (.dispatch f) :: rest)
    (next : (x.run 1).stack = .task (.fire f.target.context f.target.timer f.error) :: rest) :
    x.made 2 = [] := by
  have no_call : (x.run 1).nextCall? = none := nextCall?_of_task next fun k same => nomatch same
  rw [made, made_one top, no_call]
  simp

theorem dispatch_dropped (top : x.stack = .task (.dispatch f) :: rest)
    (idle : x.world.armed? f.target = none) :
    ∃ n ≤ 2, x.FinishesAt n ∧ x.made n = [] ∧ ∀ m ≤ n, (x.run m).world = x.world := by
  cases live : x.world.isLive f.target.context with
  | false =>
    obtain ⟨stack, world⟩ := dispatch_of_not_live top live
    refine ⟨1, by omega, ⟨?_, ?_⟩, made_one top, ?_⟩
    · intro m lt
      exact Nat.le_of_eq (by rw [Nat.lt_one_iff.mp lt, run_zero])
    · rw [stack, top, List.length_cons]
      exact Nat.lt_succ_self _
    · intro m le
      rcases Nat.le_one_iff_eq_zero_or_eq_one.mp le with rfl | rfl
      · rfl
      · exact world
  | true =>
    obtain ⟨next, same⟩ := dispatch_of_live top live
    have nothing : (x.run 1).world.ready? f.target.context f.target.timer = none := by
      rw [World.armed?, if_pos live] at idle
      rwa [same]
    obtain ⟨p, stack, world⟩ := (x.run_rewrites 1).of_task next fun k same => nomatch same
    obtain ⟨first, after⟩ := Task.run_fire_of_none nothing
      ⟨E.types, E.alive (x.run 1).state (x.run 1).world.heap⟩ p f.error
    rw [first] at stack
    rw [after, same] at world
    refine ⟨2, by omega, ⟨?_, ?_⟩, made_two top next, ?_⟩
    · intro m lt
      rcases Nat.le_one_iff_eq_zero_or_eq_one.mp (Nat.le_of_lt_succ lt) with rfl | rfl
      · exact Nat.le_refl _
      · exact Nat.le_of_eq (by rw [top, next]; rfl)
    · rw [stack, top, List.length_cons]
      exact Nat.lt_succ_self _
    · intro m le
      rcases Nat.le_succ_iff.mp le with earlier | rfl
      · rcases Nat.le_one_iff_eq_zero_or_eq_one.mp earlier with rfl | rfl
        · rfl
        · exact same
      · exact world

theorem dispatch_armed (top : x.stack = .task (.dispatch f) :: rest)
    (armed : x.world.armed? f.target = some e) :
    (x.run 1).stack = .task (.fire f.target.context f.target.timer f.error) :: rest ∧
      ∃ before, (x.run 2).stack =
        (Task.firing f.target.context e before f.error).map .task ++
          ((Task.retirement f.target.context e).map .task ++ rest) := by
  obtain ⟨live, named, ready⟩ := key_of_armed? armed
  obtain ⟨next, same⟩ := dispatch_of_live top live
  refine ⟨next, ?_⟩
  have fires : (x.run 1).Fires f.target.context e f.error := by
    rw [← named] at next ready
    exact ⟨⟨rest, next⟩, same ▸ ready⟩
  obtain ⟨before, rest', here, stack, _⟩ := fires.stack (x.run_rewrites 1)
  obtain ⟨_, rfl⟩ := List.cons.inj (next.symm.trans here)
  refine ⟨before, ?_⟩
  rw [stack, Task.fireTasks_eq, List.map_append, List.append_assoc]

theorem dispatch_unfinished (top : x.stack = .task (.dispatch f) :: rest)
    (armed : x.world.armed? f.target = some e) : x.Unfinished 2 := by
  obtain ⟨next, before, stack⟩ := dispatch_armed top armed
  intro m le
  rcases Nat.le_succ_iff.mp le with earlier | rfl
  · rcases Nat.le_one_iff_eq_zero_or_eq_one.mp earlier with rfl | rfl
    · exact Nat.le_refl _
    · exact Nat.le_of_eq (by rw [top, next]; rfl)
  · rw [top, stack]
    cases f.error <;>
      · simp only [Task.firing, List.length_append, List.length_map, List.length_cons]
        omega

end

section

variable {n : Nat} {k : Call Obj} {above below : List (Item Obj)}

theorem made_of_code (here : (x.run n).stack = above ++ .code k :: below)
    (level : x.nesting = below.countP Item.isCode) : x.made (n + 1) = x.made n := by
  have deeper : (x.run n).nesting ≠ x.nesting := by
    rw [nesting, here, level, List.countP_append, List.countP_cons_of_pos rfl]
    omega
  rw [made, if_neg deeper, List.append_nil]

theorem made_of_call (here : (x.run n).stack = .task (.call k) :: below)
    (level : x.nesting = below.countP Item.isCode) : x.made (n + 1) = x.made n ++ [k] := by
  have same : (x.run n).nesting = x.nesting := by
    rw [nesting, here, level, List.countP_cons_of_neg (by simp [Item.isCode])]
  simp only [made, if_pos same, nextCall?, here, Option.toList_some]

theorem made_of_task {t : Task Obj} (here : (x.run n).stack = .task t :: below)
    (no_call : ∀ k, t ≠ .call k) : x.made (n + 1) = x.made n := by
  rw [made, nextCall?_of_task here no_call]
  simp

end

inductive Reporting (c : ContextId) (message : String) (last below : List (Item Obj)) :
    List (Item Obj) → List (Call Obj) → Prop
  | making (above : List (Item Obj)) : Reporting c message last below
      (above ++ .code (.typeError c message) :: (last ++ below)) [.typeError c message]
  | made (v : Value) : Reporting c message last below
      (.task (.call (.report c v)) :: (last ++ below)) [.typeError c message]
  | reporting (above : List (Item Obj)) (v : Value) : Reporting c message last below
      (above ++ .code (.report c v) :: (last ++ below)) [.typeError c message, .report c v]
  | reported (v : Value) : Reporting c message last below
      (last ++ below) [.typeError c message, .report c v]
  | past (v : Value) : Reporting c message last below
      below [.typeError c message, .report c v]

section Error

variable {c : ContextId} {message : String} {e : Entry TimerId Timer} {i : Item Obj}
  {below : List (Item Obj)} {n : Nat}

omit [Traced Obj] in
theorem Reporting.calls_initial {last items : List (Item Obj)} {calls : List (Call Obj)}
    (reporting : Reporting c message last below items calls) :
    ∃ exception, calls <+: [.typeError c message, .report c exception] := by
  cases reporting with
  | making | made => exact ⟨.undefined, _, rfl⟩
  | reporting _ v | reported v | past v => exact ⟨v, List.prefix_refl _⟩

omit [Traced Obj] in
theorem Reporting.calls_of_done {last items : List (Item Obj)} {calls : List (Call Obj)}
    (reporting : Reporting c message last below items calls)
    (past : items.length ≤ below.length) :
    ∃ exception, calls = [.typeError c message, .report c exception] := by
  cases reporting with
  | making | made =>
    simp only [List.length_append, List.length_cons] at past
    omega
  | reporting _ v | reported v | past v => exact ⟨v, rfl⟩

theorem Reporting.succ (top : x.stack = i :: below) (task : i.isCode = false) (more : below ≠ [])
    (unfinished : x.Unfinished n)
    (reporting : Reporting c message ((Task.retirement c e).map .task) below (x.run n).stack
      (x.made n)) :
    Reporting c message ((Task.retirement c e).map .task) below (x.run (n + 1)).stack
      (x.made (n + 1)) := by
  have long := unfinished n (Nat.le_refl n)
  rw [top, List.length_cons] at long
  have level : x.nesting =
      ((Task.retirement c e : List (Task Obj)).map Item.task ++ below).countP Item.isCode := by
    rw [nesting_of_stack [] top task, List.countP_append, countP_isCode_tasks]
    rfl
  have rewrites := x.run_rewrites n
  generalize here : (x.run n).stack = items at reporting
  generalize said : x.made n = calls at reporting
  cases reporting with
  | making above =>
    rw [made_of_code here level, said]
    rcases rewrites.of_code here with ⟨above', stack⟩ | ⟨_, ⟨v, p, _, stack⟩ | ⟨nothing, _⟩⟩
    · exact stack ▸ .making above'
    · exact stack ▸ .made v
    · exact absurd (List.append_eq_nil_iff.mp nothing).2 more
  | made v =>
    rw [made_of_call here level, said, (rewrites.of_call here).1]
    exact .reporting [] v
  | reporting above v =>
    rw [made_of_code here level, said]
    rcases rewrites.of_code here with ⟨above', stack⟩ | ⟨_, ⟨_, p, _, stack⟩ | ⟨nothing, _⟩⟩
    · exact stack ▸ .reporting above' v
    · exact stack ▸ .reported v
    · exact absurd (List.append_eq_nil_iff.mp nothing).2 more
  | reported v =>
    cases once : e.item.isOneShot with
    | false =>
      simp only [Task.retirement, once] at here
      rw [here] at long
      exact absurd long (Nat.not_succ_le_self _)
    | true =>
      simp only [Task.retirement, once] at here
      have no_call : ∀ k, Task.retire c e.key ≠ (.call k : Task Obj) := fun k same => by cases same
      obtain ⟨p, stack, _⟩ := rewrites.of_task here no_call
      rw [made_of_task here no_call, said, stack]
      exact .past v
  | past v =>
    rw [here] at long
    exact absurd long (Nat.not_succ_le_self _)

theorem dispatch_reporting {f : Fire} (top : x.stack = .task (.dispatch f) :: below)
    (armed : x.world.armed? f.target = some e) (failed : f.error = some message)
    (unfinished : x.Unfinished (n + 2)) :
    Reporting f.target.context message ((Task.retirement f.target.context e).map .task) below
      (x.run (n + 3)).stack (x.made (n + 3)) := by
  induction n with
  | zero =>
    obtain ⟨next, before, stack⟩ := dispatch_armed top armed
    rw [failed] at stack
    have level : x.nesting = ((Task.retirement f.target.context e : List (Task Obj)).map Item.task ++
        below).countP Item.isCode := by
      rw [nesting_of_stack [] top rfl, List.countP_append, countP_isCode_tasks]
      rfl
    rw [made_of_call stack level, made_two top next, ((x.run_rewrites 2).of_call stack).1]
    exact .making []
  | succ n ih =>
    exact (ih (unfinished.of_le (Nat.le_succ _))).succ top rfl (stack_ne_nil_of_task top) unfinished

end Error

/-- Exactly one exception is made and reported. -/
theorem dispatch_exception {f : Fire} {e : Entry TimerId Timer} {message : String}
    {rest : List (Item Obj)} (top : x.stack = .task (.dispatch f) :: rest)
    (armed : x.world.armed? f.target = some e) (failed : f.error = some message) :
    (∀ n, x.Unfinished n → ∃ exception, x.made n <+:
        [.typeError f.target.context message, .report f.target.context exception]) ∧
      ∀ n, x.FinishesAt n → ∃ exception, x.made n =
        [.typeError f.target.context message, .report f.target.context exception] := by
  obtain ⟨next, _⟩ := dispatch_armed top armed
  constructor
  · intro n unfinished
    match n, unfinished with
    | 0, _ => exact ⟨.undefined, List.nil_prefix⟩
    | 1, _ => exact ⟨.undefined, made_one top ▸ List.nil_prefix⟩
    | 2, _ => exact ⟨.undefined, made_two top next ▸ List.nil_prefix⟩
    | n + 3, unfinished =>
      exact (dispatch_reporting top armed failed (unfinished.of_le (Nat.le_succ _))).calls_initial
  · intro n finishes
    have late : 2 < n := by
      by_contra early
      have long := dispatch_unfinished top armed n (by omega)
      exact Nat.lt_irrefl _ (Nat.lt_of_lt_of_le finishes.2 long)
    obtain ⟨m, rfl⟩ := Nat.exists_eq_add_of_le' late
    have reporting := dispatch_reporting top armed failed
      (finishes.unfinished (Nat.lt_succ_self (m + 2)))
    exact reporting.calls_of_done (Nat.le_of_eq (congrArg List.length (finishes.stack top)))

theorem dispatch_closing {f : Fire} {e : Entry TimerId Timer} {rest : List (Item Obj)} {n : Nat}
    (top : x.stack = .task (.dispatch f) :: rest) (armed : x.world.armed? f.target = some e)
    (fine : f.error = none) (unfinished : x.Unfinished (n + 2)) :
    (∃ pre, (x.run (n + 3)).stack = pre ++ rest ∧ Confined τ Task.Closes pre) ∧
      ∃ later, x.made (n + 3) = Task.timerCall f.target.context e :: later ∧
        ∀ k ∈ later, k.FollowsUp := by
  induction n with
  | zero =>
    obtain ⟨next, before, stack⟩ := dispatch_armed top armed
    rw [fine] at stack
    have called := ((x.run_rewrites 2).of_call stack).1
    have level : x.nesting = (([.setLevel f.target.context before, .drain f.target.context] :
        List (Task Obj)).map Item.task ++ ((Task.retirement f.target.context e).map Item.task ++
          rest)).countP Item.isCode := by
      rw [nesting_of_stack [] top rfl, List.countP_append, List.countP_append, countP_isCode_tasks,
        countP_isCode_tasks, Nat.zero_add]
      rfl
    constructor
    · have begins : (Task.call (Task.timerCall f.target.context e) : Task Obj).Leads := trivial
      have leads : (Task.timerCall f.target.context e : Call Obj).LeadsTo τ Task.Closes :=
        fun types w p r t mem => Or.inl (begins.leadsTo types w p r t mem)
      have tasks : ∀ t ∈ [.setLevel f.target.context before, .drain f.target.context] ++
          (Task.retirement f.target.context e : List (Task Obj)), t.Closes := by
        intro t mem
        rcases List.mem_append.mp mem with trailing | last
        · simp only [List.mem_cons, List.not_mem_nil, or_false] at trailing
          rcases trailing with rfl | rfl
          · exact Or.inl trivial
          · exact Or.inl trivial
        · unfold Task.retirement at last
          split at last
          · exact Or.inr ⟨_, _, List.mem_singleton.mp last⟩
          · exact nomatch last
      refine ⟨_, ?_, .calling [] leads tasks⟩
      rw [called, List.map_append, List.nil_append, List.cons_append, List.append_assoc]
      rfl
    · refine ⟨[], ?_, fun k mem => nomatch mem⟩
      rw [made_of_call stack level, made_two top next]
      rfl
  | succ n ih =>
    obtain ⟨⟨pre, here, confined⟩, later, said, follow⟩ := ih (unfinished.of_le (Nat.le_succ _))
    have more : pre ≠ [] := by
      rintro rfl
      have long := unfinished (n + 3) (Nat.le_refl _)
      rw [top, here, List.nil_append, List.length_cons] at long
      exact absurd long (Nat.not_succ_le_self _)
    refine ⟨(x.run_rewrites (n + 3)).confined Task.keeps_closes confined here more, ?_⟩
    rw [made, said]
    split
    · rename_i same
      cases next : (x.run (n + 3)).nextCall? with
      | none => exact ⟨later, by simp, follow⟩
      | some k =>
        refine ⟨later ++ [k], rfl, ?_⟩
        -- No code runs above the fire, so the call is one of its own tasks.
        have no_code : pre.countP Item.isCode = 0 := by
          rw [nesting_of_stack [] top rfl, nesting, here, List.countP_append, List.countP_nil] at same
          omega
        obtain ⟨t, ⟨_, stack⟩, closes⟩ := confined.atTask here more no_code
        obtain ⟨_, stack'⟩ := atTask_of_nextCall? next
        obtain ⟨is_call, _⟩ := List.cons.inj (stack.symm.trans stack')
        obtain rfl := Item.task.inj is_call
        intro k' mem
        rcases List.mem_append.mp mem with old | new
        · exact follow k' old
        · rw [List.mem_singleton.mp new]
          exact closes.followsUp
    · exact ⟨later, by simp, follow⟩

theorem AtTask.delivers {f : Fire} (next : x.AtTask (.dispatch f)) : x.Delivers f := by
  obtain ⟨rest, top⟩ := next
  constructor
  · intro e armed fine
    obtain ⟨_, before, stack⟩ := dispatch_armed top armed
    rw [fine] at stack
    refine ⟨⟨_, stack⟩, ?_⟩
    intro n two unfinished
    obtain ⟨m, rfl⟩ := Nat.exists_eq_add_of_le' two
    exact (dispatch_closing top armed fine unfinished).2
  · intro e message armed failed
    exact dispatch_exception top armed failed
  · exact dispatch_dropped top

end Execution

end HostBridge
