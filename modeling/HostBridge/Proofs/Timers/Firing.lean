import HostBridge.Proofs.Execution.Sources
import HostBridge.Proofs.Timers.Lifetime
/-!
# Fires and callbacks

A fire that finds its timer looks it up and calls its callback at once, so that a callback is called
exactly when its timer fires without an error. What else a fire does are calls into the embedder and
tasks that let all timers be, but for the retirement of its own at the end.
-/

namespace HostBridge

variable {Obj τ : Type}

def Call.IsCallback : Call Obj → Prop
  | function .. | native .. => True
  | _ => False

theorem Task.frameCall_isCallback (c : ContextId) (e : Entry FrameId FrameRequest)
    (timestamp : Double) : (frameCall c e timestamp : Call Obj).IsCallback := by
  unfold frameCall
  split <;> trivial

theorem World.ready?_of_active {w : World Obj τ} {c : ContextId} {e : Entry TimerId Timer}
    (sound : (w.timers c).Sound) (active : e ∈ (w.timers c).active) (valid : w.isValid c = true) :
    w.ready? c e.key = some e := by
  cases found : w.context? c with
  | none =>
    rw [timers, found] at active
    cases active
  | some a =>
    rw [timers_of_context? found] at sound active
    rw [isValid, found] at valid
    exact ready?_eq_some.mpr ⟨a, found, valid, sound.entry?_key active⟩

def Task.Trails : Task Obj → Prop
  | call k =>
    match k with
    | .report .. | .job _ | .event .. => True
    | _ => False
  | setLevel .. | drain _ | endDrain _ | flush _ => True
  | _ => False

def Task.Leads : Task Obj → Prop
  | call k =>
    match k with
    | .function .. | .typeError .. => True
    | _ => False
  | _ => False

def Task.OfFire (t : Task Obj) : Prop := t.Trails ∨ t.Leads

def Task.firing (c : ContextId) (e : Entry TimerId Timer) (before : UInt32) :
    Option String → List (Task Obj)
  | some message => [call (.typeError c message)]
  | none => [call (timerCall c e), setLevel c before, drain c]

def Task.retirement (c : ContextId) (e : Entry TimerId Timer) : List (Task Obj) :=
  if e.item.isOneShot then [retire c e.key] else []

theorem Task.fireTasks_eq (c : ContextId) (e : Entry TimerId Timer) (before : UInt32)
    (error : Option String) : (fireTasks c e before error : List (Task Obj)) =
      firing c e before error ++ retirement c e := by
  cases error <;> rfl

theorem Task.ofFire_of_mem_firing {c : ContextId} {e : Entry TimerId Timer} {before : UInt32}
    {error : Option String} {t : Task Obj} (mem : t ∈ firing c e before error) : t.OfFire := by
  cases error with
  | some message =>
    rw [List.mem_singleton.mp mem]
    exact Or.inr trivial
  | none =>
    simp only [firing, List.mem_cons, List.not_mem_nil, or_false] at mem
    rcases mem with rfl | rfl | rfl
    · exact Or.inr trivial
    · exact Or.inl trivial
    · exact Or.inl trivial

theorem Task.trails_of_mem_batch {c : ContextId} {b : Rejections.Batch} {t : Task Obj}
    (mem : t ∈ b.tasks c) : t.Trails := by
  rcases List.mem_append.mp mem with here | here
  · obtain ⟨r, _, rfl⟩ := List.mem_map.mp here
    trivial
  · obtain ⟨r, _, rfl⟩ := List.mem_map.mp here
    trivial

theorem Task.Leads.leadsTo {k : Call Obj} (leads : (Task.call k).Leads) :
    k.LeadsTo τ Task.Trails := by
  intro types w p r t mem
  cases k with
  | function =>
    rcases r with thrown | _
    · rw [List.mem_singleton.mp mem]
      trivial
    · exact nomatch mem
  | typeError =>
    rw [List.mem_singleton.mp mem]
    trivial
  | session | native | report | job | event | createClass | install | traceRoots | traceComplete
  | drop => exact nomatch leads

section

variable [Traced Obj]

theorem Task.keeps_trails : Execution.Keeps τ (@Task.Trails Obj) := by
  constructor
  · intro k trails types w p r t mem
    cases k with
    | job =>
      rcases r with _ | thrown | _
      · cases mem
      · simp only [Call.resume, List.mem_cons, List.not_mem_nil, or_false] at mem
        rcases mem with rfl | rfl <;> trivial
      · rw [List.mem_singleton.mp mem]
        trivial
    | report | event => cases mem
    | session | function | native | typeError | createClass | install | traceRoots | traceComplete
    | drop => cases trails
  · intro t trails no_call env w p u mem
    cases t with
    | call k => exact absurd rfl (no_call k)
    | setLevel => cases mem
    | drain c =>
      simp only [Task.run] at mem
      split at mem
      · split at mem
        · simp only [List.mem_cons, List.not_mem_nil, or_false] at mem
          rcases mem with rfl | rfl <;> trivial
        · cases mem
      · cases mem
    | endDrain =>
      rw [List.mem_singleton.mp mem]
      trivial
    | flush => exact Task.trails_of_mem_batch mem
    | fire | dispatch | retire | frames | frame | classObjects | defineClass | traceRoots
    | markAndSweep | letGo | conclude | traceComplete => cases trails

theorem Task.keeps_ofFire : Execution.Keeps τ (@Task.OfFire Obj) := by
  apply Task.keeps_trails.or
  · intro k leads
    exact leads.leadsTo
  · intro t leads no_call
    cases t with
    | call k => exact absurd rfl (no_call k)
    | _ => exact nomatch leads

end

namespace Execution

variable [Facility τ] {E : Embedder Obj τ} {x y : Execution E} {c : ContextId}
  {e : Entry TimerId Timer} {error : Option String}

/-- The next step calls the callback of the timer. -/
def Invokes (x : Execution E) (c : ContextId) (e : Entry TimerId Timer) : Prop :=
  x.AtTask (.call (Task.timerCall c e))

theorem Fires.active (fires : x.Fires c e error) : e ∈ (x.world.timers c).active := by
  obtain ⟨a, found, _, entry⟩ := World.ready?_eq_some.mp fires.ready
  rw [World.timers_of_context? found]
  exact Registry.mem_of_entry entry

theorem Brings.callback {k : Call Obj} (brings : x.Brings (.call k)) (callback : k.IsCallback) :
    (∃ c e, x.Fires c e none ∧ k = Task.timerCall c e) ∨
      ∃ c e timestamp, x.RunsFrame c e timestamp ∧ k = Task.frameCall c e timestamp := by
  cases brings with
  | timerCall fires => exact Or.inl ⟨_, _, fires, rfl⟩
  | frameCall runs => exact Or.inr ⟨_, _, _, runs, rfl⟩
  | dropHook | rootSet | rootSetDone | exception | createClass | install | firstJob | nextJob | event
  | typeError => exact nomatch callback

variable [Traced Obj]

theorem Fires.stack (fires : x.Fires c e error) (rewrites : Rewrites x y) :
    ∃ before rest, x.stack = .task (.fire c e.key error) :: rest ∧
      y.stack = (Task.fireTasks c e before error).map .task ++ rest ∧
      y.world = x.world.update c fun a => { a with level := Task.fireLevel e a.level error } := by
  obtain ⟨rest, top⟩ := fires.next
  obtain ⟨p, stack, world⟩ := rewrites.of_task top fun k same => nomatch same
  obtain ⟨before, first, after⟩ := Task.run_fire fires.ready _ p error
  exact ⟨before, rest, top, by rw [stack, first], by rw [world, after]⟩

theorem RunsFrame.stack {e : Entry FrameId FrameRequest} {timestamp : Double}
    (runs : x.RunsFrame c e timestamp) (rewrites : Rewrites x y) :
    ∃ rest, x.stack = .task (.frame c e.key timestamp) :: rest ∧
      y.stack = .task (.call (Task.frameCall c e timestamp)) :: .task (.drain c) :: rest := by
  obtain ⟨rest, top⟩ := runs.next
  obtain ⟨p, stack, _⟩ := rewrites.of_task top fun k same => nomatch same
  have active : (x.world.context? c).bind (·.frames.entry? e.key) = some e := runs.active
  refine ⟨rest, top, ?_⟩
  rw [stack, Task.run, active]
  rfl

theorem Fires.invokes {n : Nat} (fires : (x.run n).Fires c e none) : (x.run (n + 1)).Invokes c e := by
  obtain ⟨before, rest, _, stack, _⟩ := fires.stack (x.run_rewrites n)
  exact ⟨_, stack⟩

def Prompt (x : Execution E) : Prop :=
  ∀ i rest, x.stack = i :: rest → ∀ k : Call Obj, k.IsCallback → Item.task (.call k) ∉ rest

omit [Traced Obj] in
theorem Prompt.not_mem_kept (prompt : x.Prompt) {kept : List (Item Obj)}
    (split : kept = x.stack ∧ (∀ t, ¬ x.AtTask t) ∨ ∃ i, x.stack = i :: kept) {k : Call Obj}
    (callback : k.IsCallback) : Item.task (.call k) ∉ kept := by
  intro mem
  rcases split with ⟨rfl, no_task⟩ | ⟨i, top⟩
  · rcases here : x.stack with _ | ⟨i, rest⟩
    · rw [here] at mem
      exact nomatch mem
    · rw [here] at mem
      rcases List.mem_cons.mp mem with rfl | later
      · exact no_task _ ⟨rest, here⟩
      · exact prompt i rest here k callback later
  · exact prompt i kept top k callback mem

theorem Prompt.rewrites (prompt : x.Prompt) (rewrites : Rewrites x y) : y.Prompt := by
  intro i rest top k callback waits
  obtain ⟨pushed, kept, stack, split, brought⟩ := rewrites.brings
  have not_kept := prompt.not_mem_kept split callback
  have mem : Item.task (.call k) ∈ pushed ++ kept := by
    rw [← stack, top]
    exact List.mem_cons_of_mem i waits
  rcases List.mem_append.mp mem with new | old
  · -- A callback that is new lies on top of what its timer's fire, or its frame request, brings.
    rcases brought _ new with ⟨t, same, brings⟩ | ⟨_, same, _⟩
    · obtain rfl := Item.task.inj same
      rcases brings.callback callback with ⟨c, e, fires, rfl⟩ | ⟨c, e, timestamp, runs, rfl⟩
      · obtain ⟨before, below, above, here, _⟩ := fires.stack rewrites
        rw [Task.fireTasks_eq, Task.firing, top] at here
        obtain ⟨_, rfl⟩ := List.cons.inj here
        have later : Item.task (.call (Task.timerCall c e)) ∈ below := by
          cases once : e.item.isOneShot <;> simpa [Task.retirement, once] using waits
        exact prompt _ below above _ callback later
      · obtain ⟨below, above, here⟩ := runs.stack rewrites
        obtain ⟨_, rfl⟩ := List.cons.inj (top.symm.trans here)
        rcases List.mem_cons.mp waits with same | later
        · exact nomatch same
        · exact prompt _ below above _ callback later
    · exact nomatch same
  · exact not_kept old

omit [Traced Obj] in
theorem Blank.stack (blank : x.Blank) : x.stack = [] ∨ ∃ k, x.stack = [.code k] := by
  have outside := blank.outside
  rcases at_focus : x.focus with _ | ⟨k, a⟩ | s
  · exact Or.inl (by rw [Execution.stack, at_focus])
  · rw [frames_of_code at_focus] at outside
    exact Or.inr ⟨k, by rw [stack_of_code at_focus, outside]; rfl⟩
  · rw [frames_of_bridge at_focus] at outside
    cases outside

omit [Traced Obj] in
theorem Blank.task_notMem (blank : x.Blank) {t : Task Obj} : .task t ∉ x.stack := by
  intro mem
  rcases blank.stack with nothing | ⟨k, alone⟩
  · rw [nothing] at mem
    cases mem
  · rw [alone] at mem
    cases List.mem_singleton.mp mem

omit [Traced Obj] in
theorem Blank.countP_stack (blank : x.Blank) {p : Item Obj → Bool}
    (no_code : ∀ k, p (.code k) = false) : x.stack.countP p = 0 := by
  apply List.countP_eq_zero.mpr
  intro i mem holds
  cases i with
  | task t => exact blank.task_notMem mem
  | code k => cases (no_code k).symm.trans holds

theorem prompt_run (blank : x.Blank) (n : Nat) : (x.run n).Prompt := by
  induction n with
  | zero =>
    intro i rest top k _ waits
    rw [run_zero] at top
    rcases blank.stack with nothing | ⟨k', alone⟩
    · exact nomatch nothing.symm.trans top
    · obtain ⟨_, rfl⟩ := List.cons.inj (alone.symm.trans top)
      exact nomatch waits
  | succ n ih => exact ih.rewrites (x.run_rewrites n)

/-- A callback is called right after the step that brings it. -/
theorem callback_brought (blank : x.Blank) {n : Nat} {k : Call Obj}
    (next : (x.run n).AtTask (.call k)) (callback : k.IsCallback) :
    ∃ m, n = m + 1 ∧ (x.run m).Brings (.call k) := by
  obtain ⟨rest, top⟩ := next
  cases n with
  | zero =>
    rw [run_zero] at top
    exact absurd (top ▸ List.mem_cons_self) blank.task_notMem
  | succ m =>
    refine ⟨m, rfl, ?_⟩
    obtain ⟨pushed, kept, stack, split, brought⟩ := (x.run_rewrites m).brings
    have not_kept := (prompt_run blank m).not_mem_kept split callback
    have mem : Item.task (.call k) ∈ pushed ++ kept := by
      rw [← stack, top]
      exact List.mem_cons_self
    rcases List.mem_append.mp mem with new | old
    · rcases brought _ new with ⟨t, same, brings⟩ | ⟨_, same, _⟩
      · obtain rfl := Item.task.inj same
        exact brings
      · exact nomatch same
    · exact absurd old not_kept

/-- The callback of a timer of the run is called exactly when the timer fires without an error. -/
theorem invokes_iff (blank : x.Blank) {m n : Nat} (active : e ∈ ((x.run m).world.timers c).active) :
    (x.run n).Invokes c e ↔ ∃ l, n = l + 1 ∧ (x.run l).Fires c e none := by
  constructor
  · intro invokes
    obtain ⟨l, rfl, brings⟩ := callback_brought blank invokes trivial
    refine ⟨l, rfl, ?_⟩
    rcases brings.callback trivial with ⟨c', e', fires, same⟩ | ⟨_, e', _, _, same⟩
    · obtain ⟨rfl, cause, _⟩ := Call.function.inj same
      obtain ⟨_, serial⟩ := Cause.timer.inj cause
      obtain rfl : e' = e := eq_of_serial_of_active blank active fires.active serial.symm
      exact fires
    · exfalso
      unfold Task.frameCall at same
      split at same
      · exact nomatch (Call.function.inj same).2.1
      · exact nomatch same
  · rintro ⟨l, rfl, fires⟩
    exact fires.invokes

end Execution

end HostBridge
