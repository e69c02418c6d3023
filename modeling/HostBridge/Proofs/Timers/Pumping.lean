import HostBridge.Proofs.Timers.Batches
import HostBridge.Proofs.Timers.Dispatch
import HostBridge.Proofs.Execution.Turns
/-!
# Pumps

A pump dispatches its batch one fire after the other, whatever the callbacks do: what they post is
left to the next pump, and what the pumps do that they ask for is done before the outer one goes on.
It answers how many of its own dispatches have found their timer.
-/

namespace HostBridge

variable {Obj τ : Type}

theorem Registry.entry?_eq_none_iff {κ α : Type} [DecidableEq κ] {r : Registry κ α} {k : κ} :
    r.entry? k = none ↔ r.contains k = false := by
  unfold entry? contains
  simp

theorem World.ready?_eq_none_iff {w : World Obj τ} {c : ContextId} {id : TimerId} :
    w.ready? c id = none ↔ w.isValid c = false ∨ (w.timers c).contains id = false := by
  cases found : w.context? c with
  | none => simp [ready?, isValid, found]
  | some a =>
    rw [ready?, isValid, found, timers_of_context? found]
    cases valid : a.valid <;> simp [valid, Registry.entry?_eq_none_iff]

theorem World.armed?_eq_none_iff {w : World Obj τ} {t : Target} : w.armed? t = none ↔
    w.isLive t.context = false ∨ w.isValid t.context = false ∨
      (w.timers t.context).contains t.timer = false := by
  rw [armed?, ← ready?_eq_none_iff]
  cases w.isLive t.context <;> simp

def Task.InFire (t : Task Obj) : Prop := t.OfFire ∨ ∃ c id, t = .retire c id

theorem Task.InFire.silent {t : Task Obj} (in_fire : t.InFire) : ¬ t.Counts := by
  rcases in_fire with (trails | leads) | ⟨_, _, rfl⟩
  · cases t with
    | fire | frame | markAndSweep => cases trails
    | _ => exact id
  · cases t with
    | fire | frame | markAndSweep => cases leads
    | _ => exact id
  · exact id

section

variable [Traced Obj]

theorem Task.keeps_inFire : Execution.Keeps τ (@Task.InFire Obj) := by
  apply Task.keeps_ofFire.or
  · rintro k ⟨c, id, same⟩
    cases same
  · rintro t ⟨c, id, rfl⟩ _ env w p u mem
    cases mem

omit [Traced Obj] in
theorem Task.inFire_of_mem {c : ContextId} {e : Entry TimerId Timer} {before : UInt32}
    {error : Option String} {t : Task Obj} (mem : t ∈ fireTasks c e before error) : t.InFire := by
  rw [fireTasks_eq] at mem
  rcases List.mem_append.mp mem with firing | retirement
  · exact Or.inl (ofFire_of_mem_firing firing)
  · unfold Task.retirement at retirement
    split at retirement
    · exact Or.inr ⟨_, _, List.mem_singleton.mp retirement⟩
    · cases retirement

theorem Task.run_fire_count (env : Surroundings) (w : World Obj τ) (p : Progress) (c : ContextId)
    (id : TimerId) (error : Option String) : (Task.run env w p (.fire c id error)).progress.count =
      p.count + if (w.ready? c id).isSome then 1 else 0 := by
  cases found : w.context? c with
  | none => simp [run, World.ready?, found]
  | some a =>
    cases valid : a.valid with
    | false => simp [run, World.ready?, found, valid]
    | true =>
      cases entry : a.timers.entry? id with
      | none => simp [run, World.ready?, found, valid, entry]
      | some e => simp [run, World.ready?, found, valid, entry, Progress.tick]

end

variable [Facility τ] {E : Embedder Obj τ}

def Event.pumpAnswer? : Event E → Option Nat
  | ended .pump answer => some answer
  | _ => none

namespace Execution

variable [Traced Obj]

/-- What comes next is done with at the `n`th step, and up to there nothing has been called and no
state has changed. -/
structure Ignored (x : Execution E) (n : Nat) : Prop where
  finishes : x.FinishesAt n
  calls : x.made n = []
  world : ∀ m ≤ n, (x.run m).world = x.world
  state : ∀ m ≤ n, (x.run m).state = x.state

/-- The fires are dispatched in turn, the first after `m` steps, and after `n` steps the last is done
with. Those of the second list have found their timer. -/
inductive Dispatches (x : Execution E) : Nat → List Fire → List Fire → Nat → Prop
  | nil (n : Nat) : Dispatches x n [] [] n
  | ignored {m j n : Nat} {f : Fire} {fires ran : List Fire}
      (next : (x.run m).AtTask (.dispatch f)) (idle : (x.run m).world.armed? f.target = none)
      (nothing : (x.run m).Ignored j) (later : Dispatches x (m + j) fires ran n) :
      Dispatches x m (f :: fires) ran n
  | ran {m j n : Nat} {f : Fire} {e : Entry TimerId Timer} {fires ran : List Fire}
      (next : (x.run m).AtTask (.dispatch f)) (armed : (x.run m).world.armed? f.target = some e)
      (delivers : (x.run m).Delivers f) (finishes : (x.run m).FinishesAt j)
      (later : Dispatches x (m + j) fires ran n) :
      Dispatches x m (f :: fires) (f :: ran) n

variable {x y : Execution E} {f : Fire} {fires : List Fire} {m n j : Nat}

theorem dispatch_ignored (next : x.AtTask (.dispatch f)) (idle : x.world.armed? f.target = none) :
    ∃ n ≤ 2, x.Ignored n := by
  obtain ⟨rest, top⟩ := next
  obtain ⟨n, le, finishes, calls, world⟩ := dispatch_dropped top idle
  refine ⟨n, le, finishes, calls, world, ?_⟩
  have first : (x.run 1).state = x.state := AtTask.state_run_succ (n := 0) ⟨rest, top⟩
  intro m before
  match m, Nat.le_trans before le with
  | 0, _ => rfl
  | 1, _ => exact first
  | 2, _ =>
    cases live : x.world.isLive f.target.context with
    | false =>
      have past := (dispatch_of_not_live top live).1
      have long := finishes.1 1 (by omega)
      rw [past, top] at long
      exact absurd long (Nat.not_succ_le_self _)
    | true => rw [AtTask.state_run_succ ⟨rest, (dispatch_of_live top live).1⟩, first]

theorem fire_ignored {c : ContextId} {id : TimerId} {error : Option String}
    (next : x.AtTask (.fire c id error)) (idle : x.world.ready? c id = none) : x.Ignored 1 := by
  obtain ⟨rest, top⟩ := next
  have state : (x.run 1).state = x.state := AtTask.state_run_succ (n := 0) ⟨rest, top⟩
  obtain ⟨p, stack, world⟩ := (x.run_rewrites 0).of_task top fun k same => nomatch same
  obtain ⟨first, after⟩ :=
    Task.run_fire_of_none idle ⟨E.types, E.alive x.state x.world.heap⟩ p error
  rw [run_zero, first] at stack
  rw [run_zero, after] at world
  refine ⟨⟨?_, ?_⟩, ?_, ?_, ?_⟩
  · intro m lt
    exact Nat.le_of_eq (by rw [Nat.lt_one_iff.mp lt, run_zero])
  · rw [stack, top]
    exact Nat.lt_succ_self _
  · exact (made_of_task top fun k same => nomatch same : x.made 1 = x.made 0)
  · intro m le
    rcases Nat.le_one_iff_eq_zero_or_eq_one.mp le with rfl | rfl
    · rfl
    · exact world
  · intro m le
    rcases Nat.le_one_iff_eq_zero_or_eq_one.mp le with rfl | rfl
    · rfl
    · exact state

/-- When a task is done with, what it brought has had its turn in the same procedure. -/
theorem FinishesAt.works {s : Suspended E} {t : Task Obj} {todo : List (Task Obj)}
    (at_bridge : (x.run m).focus = .bridge s) (first : s.todo = t :: todo)
    (no_call : ∀ k, t ≠ .call k) (finishes : (x.run m).FinishesAt j) :
    ∃ advance, advance =
        t.run ⟨E.types, E.alive (x.run m).state (x.run m).world.heap⟩ (x.run m).world s.progress ∧
      (x.run (m + 1)).focus =
        .bridge { s with todo := advance.first ++ todo, progress := advance.progress } ∧
      (x.run (m + 1)).below = (x.run m).below ∧ (x.run (m + 1)).world = advance.world ∧
      x.InTurn (m + 1) advance.first (m + j) := by
  obtain ⟨⟨_, here, below⟩, world⟩ := work_goesOn at_bridge first no_call
  rw [← run_add] at here below world
  refine ⟨_, rfl, here, below, world, ?_⟩
  have top := stack_of_bridge at_bridge
  rw [first] at top
  apply finishes.inTurn top
  rw [stack_of_first here rfl, below]
  rfl

theorem FinishesAt.fire_resumes {s : Suspended E} {todo : List (Task Obj)} {c : ContextId}
    {id : TimerId} {error : Option String} (at_bridge : (x.run m).focus = .bridge s)
    (first : s.todo = .fire c id error :: todo) (finishes : (x.run m).FinishesAt j) :
    ∃ p, (x.run (m + j)).focus = .bridge { s with todo, progress := p } ∧
      (x.run (m + j)).below = (x.run m).below ∧ p.count = s.progress.count +
        if ((x.run m).world.ready? c id).isSome then 1 else 0 := by
  obtain ⟨advance, same, here, below, _, turns⟩ :=
    finishes.works at_bridge first fun k same => nomatch same
  have in_fire : ∀ t ∈ advance.first, t.InFire := by
    intro t mem
    rw [same] at mem
    cases ready : (x.run m).world.ready? c id with
    | none =>
      rw [(Task.run_fire_of_none ready _ _ error).1] at mem
      cases mem
    | some e =>
      obtain ⟨before, brought, _⟩ := Task.run_fire ready
        ⟨E.types, E.alive (x.run m).state (x.run m).world.heap⟩ s.progress error
      exact Task.inFire_of_mem (brought ▸ mem)
  obtain ⟨p, there, below', count⟩ :=
    turns.resumes Task.keeps_inFire (fun _ => Task.InFire.silent) in_fire here rfl
  refine ⟨p, there, below'.trans below, count.trans ?_⟩
  rw [same]
  exact Task.run_fire_count _ _ _ c id error

theorem FinishesAt.dispatch_resumes {s : Suspended E} {todo : List (Task Obj)}
    (at_bridge : (x.run m).focus = .bridge s) (first : s.todo = .dispatch f :: todo)
    (finishes : (x.run m).FinishesAt j) :
    ∃ p, (x.run (m + j)).focus = .bridge { s with todo, progress := p } ∧
      (x.run (m + j)).below = (x.run m).below ∧ p.count = s.progress.count +
        if ((x.run m).world.armed? f.target).isSome then 1 else 0 := by
  obtain ⟨advance, rfl, here, below, world, turns⟩ :=
    finishes.works at_bridge first fun k same => nomatch same
  have world : (x.run (m + 1)).world = (x.run m).world := world
  simp only [Task.run] at here turns
  generalize m + j = n at turns ⊢
  rw [World.armed?]
  split at here
  · rename_i live
    rw [if_pos live] at turns ⊢
    cases turns with
    | @cons _ j' _ _ _ _ finishes' later =>
      cases later
      obtain ⟨p, there, below', count⟩ := finishes'.fire_resumes here rfl
      rw [world] at count
      exact ⟨p, there, below'.trans below, count⟩
  · rename_i gone
    rw [if_neg gone] at turns ⊢
    cases turns
    exact ⟨_, here, below, rfl⟩

theorem InTurn.dispatches (turns : x.InTurn m (fires.map .dispatch) n) :
    ∃ ran, x.Dispatches m fires ran n := by
  induction fires generalizing m with
  | nil =>
    cases turns with
    | nil => exact ⟨[], .nil _⟩
  | cons f fires ih =>
    cases turns with
    | cons next finishes later =>
      obtain ⟨ran, dispatches⟩ := ih later
      cases found : (x.run _).world.armed? f.target with
      | none =>
        obtain ⟨j, _, ignored⟩ := dispatch_ignored next found
        obtain rfl := finishes.unique ignored.finishes
        exact ⟨ran, .ignored next found ignored dispatches⟩
      | some e => exact ⟨f :: ran, .ran next found next.delivers finishes dispatches⟩

/-- The dispatches add to the count of their procedure how many of them have found their timer. -/
theorem Dispatches.resumes {ran : List Fire} {s : Suspended E} {todo : List (Task Obj)}
    (dispatches : x.Dispatches m fires ran n) (at_bridge : (x.run m).focus = .bridge s)
    (next : s.todo = fires.map .dispatch ++ todo) :
    ∃ p, (x.run n).focus = .bridge { s with todo, progress := p } ∧
      (x.run n).below = (x.run m).below ∧ p.count = s.progress.count + ran.length := by
  induction dispatches generalizing s with
  | nil =>
    subst next
    exact ⟨s.progress, at_bridge, rfl, rfl⟩
  | ignored _ idle nothing _ ih =>
    obtain ⟨p, here, below, count⟩ := nothing.finishes.dispatch_resumes at_bridge next
    obtain ⟨q, there, below', count'⟩ := ih here rfl
    rw [idle] at count
    exact ⟨q, there, below'.trans below, count'.trans (by rw [count]; simp)⟩
  | ran _ armed _ finishes _ ih =>
    obtain ⟨p, here, below, count⟩ := finishes.dispatch_resumes at_bridge next
    obtain ⟨q, there, below', count'⟩ := ih here rfl
    rw [armed] at count
    refine ⟨q, there, below'.trans below, count'.trans ?_⟩
    rw [count, List.length_cons]
    simp
    omega

def Holds (x : Execution E) (s : Suspended E) (below : List (Suspended E)) : Prop :=
  ∃ inner todo p, x.frames = inner ++ { s with todo, progress := p } :: below

/-- No pump has begun that has not ended. -/
def Unpumped (x : Execution E) : Prop := ∀ s ∈ x.frames, s.procedure ≠ .pump

theorem holds_until {s : Suspended E} (at_bridge : (x.run m).focus = .bridge s) (le : m ≤ n)
    (more : ∀ i, m ≤ i → i < n → ∃ pre, pre ≠ [] ∧
      (x.run i).stack = pre ++ .code s.k :: (x.run m).below.flatMap Suspended.items) :
    (x.run n).Holds s (x.run m).below := by
  induction le with
  | refl => exact ⟨[], s.todo, s.progress, frames_of_bridge at_bridge⟩
  | @step n le ih =>
    obtain ⟨inner, left, p, frames⟩ := ih fun i after before =>
      more i after (Nat.lt_succ_of_lt before)
    obtain ⟨pre, more, here⟩ := more n le (Nat.lt_succ_self n)
    rcases run_succ_cases x n with same | stepped
    · exact ⟨inner, left, p, by rw [same, frames]⟩
    · obtain ⟨inner, left, p, frames, _⟩ := stepped.stays frames more here
      exact ⟨inner, left, p, frames⟩

theorem Requests.batch {k : Call Obj} {resume : Nat → E.Activity}
    (requests : (x.run m).Requests k .pump resume) :
    (x.run (m + 1)).stack = ((x.run m).world.queue.waiting.map Task.dispatch).map .task ++
      .code k :: (x.run (m + 1)).below.flatMap Suspended.items := by
  have at_bridge := requests.run_one.1
  rw [← run_add] at at_bridge
  exact stack_of_bridge at_bridge

theorem InTurn.pump_holds {k : Call Obj} {resume : Nat → E.Activity} {done left : List (Task Obj)}
    {t : Task Obj} {l : Nat} (requests : (x.run m).Requests k .pump resume)
    (batch : (x.run m).world.queue.waiting.map .dispatch = done ++ t :: left)
    (turns : x.InTurn (m + 1) done l) (le : l ≤ n) (goes_on : (x.run l).Unfinished (n - l)) :
    ∃ s ∈ (x.run n).frames, s.procedure = .pump := by
  have at_bridge := requests.run_one.1
  have top := requests.batch
  rw [← run_add] at at_bridge
  rw [batch, List.map_append, List.append_assoc] at top
  have begun := turns.le
  obtain ⟨inner, todo, p, frames⟩ : (x.run n).Holds _ (x.run (m + 1)).below := by
    apply holds_until at_bridge (Nat.le_trans begun le)
    intro i after before
    by_cases early : i ≤ l
    · obtain ⟨pre, here, _⟩ := turns.stack_within top after early
      exact ⟨pre ++ (t :: left).map .task, by simp, by rw [here, List.append_assoc]⟩
    · obtain ⟨d, rfl⟩ := Nat.exists_eq_add_of_le (Nat.le_of_not_le early)
      obtain ⟨j, pre, here⟩ :=
        (goes_on.of_le (by omega : d ≤ n - l)).stack (i := .task t) (turns.stack top)
      refine ⟨j :: (pre ++ left.map .task), List.cons_ne_nil _ _, ?_⟩
      rw [run_add, here, List.cons_append, List.append_assoc]
      rfl
  exact ⟨_, frames ▸ List.mem_append_right inner List.mem_cons_self, rfl⟩

/-- Where no pump is in progress every pump so far has dispatched its whole batch. -/
theorem Unpumped.all_dispatched {k : Call Obj} {resume : Nat → E.Activity}
    (unpumped : (x.run n).Unpumped) (requests : (x.run m).Requests k .pump resume) (lt : m < n) :
    ∃ ran l, l ≤ n ∧ x.Dispatches (m + 1) (x.run m).world.queue.waiting ran l := by
  obtain ⟨done, left, l, split, turns, le, goes_on⟩ := exists_inTurn requests.batch lt
  cases left with
  | nil =>
    rw [List.append_nil] at split
    subst split
    obtain ⟨ran, dispatches⟩ := turns.dispatches
    exact ⟨ran, l, le, dispatches⟩
  | cons t left =>
    obtain ⟨s, mem, pump⟩ := turns.pump_holds requests split le (goes_on t rfl).2
    exact absurd pump (unpumped s mem)

/-- Dispatches wait in pumps only: what code asks for is done at once. -/
structure DispatchesWait (x : Execution E) : Prop where
  below : ∀ s ∈ x.below, ∀ g, .dispatch g ∈ s.todo → s.procedure = .pump
  focus : ∀ s, x.focus = .bridge s → ∀ g, .dispatch g ∈ s.todo →
    s.procedure = .pump ∨ s.todo = [.dispatch g]

theorem DispatchesWait.stepped (wait : x.DispatchesWait) (stepped : Stepped x y) :
    y.DispatchesWait := by
  cases stepped with
  | proceed => exact ⟨wait.below, fun s same => nomatch same⟩
  | command => exact ⟨wait.below, fun s same => nomatch same⟩
  | @procedure k a _ _ p resume at_code turn =>
    refine ⟨wait.below, fun s same g mem => ?_⟩
    obtain rfl := Focus.bridge.inj same
    have requests : x.Requests k p resume := ⟨a, _, _, at_code, turn⟩
    rcases (brings_start requests mem).dispatch_requested with asked | asked
    · obtain rfl := Option.some.inj (requests.requested?.symm.trans asked)
      exact Or.inr rfl
    · exact Or.inl (Option.some.inj (requests.requested?.symm.trans asked))
  | halt => exact ⟨(fun s mem => nomatch mem), fun s same => nomatch same⟩
  | @finish k a _ _ r u below at_code turn caller =>
    refine ⟨fun s mem => wait.below s (caller ▸ List.mem_cons_of_mem u mem), fun s same g mem => ?_⟩
    obtain rfl := Focus.bridge.inj same
    have returns : x.Returns k r := ⟨a, _, _, at_code, caller ▸ List.cons_ne_nil u below, turn⟩
    rcases List.mem_append.mp mem with first | later
    · rcases (brings_resume returns first).dispatch_requested with asked | asked
      · obtain ⟨_, _, requests⟩ := requests_of_requested? asked
        exact absurd requests returns.not_requests
      · obtain ⟨_, _, requests⟩ := requests_of_requested? asked
        exact absurd requests returns.not_requests
    · exact Or.inl (wait.below u (caller ▸ List.mem_cons_self) g later)
  | ended => exact ⟨wait.below, fun s same => nomatch same⟩
  | @called u k todo at_bridge next =>
    refine ⟨fun s mem g waits => ?_, fun s same => nomatch same⟩
    rcases List.mem_cons.mp mem with rfl | older
    · rcases wait.focus u at_bridge g (next ▸ List.mem_cons_of_mem _ waits) with pump | alone
      · exact pump
      · cases next.symm.trans alone
    · exact wait.below s older g waits
  | @worked u t todo at_bridge next no_call =>
    refine ⟨wait.below, fun s same g mem => ?_⟩
    obtain rfl := Focus.bridge.inj same
    rcases List.mem_append.mp mem with first | later
    · have unasked : x.requested? = none := by rw [requested?, at_bridge]
      have at_task := atTask_of_bridge at_bridge next
      rcases (brings_task at_task no_call first).dispatch_requested with asked | asked
      · cases asked.symm.trans unasked
      · cases asked.symm.trans unasked
    · rcases wait.focus u at_bridge g (next ▸ List.mem_cons_of_mem _ later) with pump | alone
      · exact Or.inl pump
      · obtain ⟨_, rfl⟩ := List.cons.inj (next.symm.trans alone)
        cases later

theorem dispatchesWait_run (blank : x.Blank) (n : Nat) : (x.run n).DispatchesWait := by
  refine run_invariant ?_ (fun y z wait stepped => wait.stepped stepped) n
  have outside := blank.outside
  rcases at_focus : x.focus with _ | ⟨k, a⟩ | s
  · rw [frames, at_focus] at outside
    exact ⟨by simp [outside], by simp [at_focus]⟩
  · rw [frames_of_code at_focus] at outside
    exact ⟨by simp [outside], by simp [at_focus]⟩
  · rw [frames_of_bridge at_focus] at outside
    cases outside

omit [Traced Obj] in
theorem exists_frame_of_mem {t : Task Obj} (mem : .task t ∈ x.stack) :
    (∃ s ∈ x.below, t ∈ s.todo) ∨ ∃ s, x.focus = .bridge s ∧ t ∈ s.todo := by
  have of_items {s : Suspended E} (mem : .task t ∈ s.items) : t ∈ s.todo := by
    simpa [Suspended.items] using mem
  have of_below (mem : .task t ∈ x.below.flatMap Suspended.items) : ∃ s ∈ x.below, t ∈ s.todo := by
    obtain ⟨s, older, mem⟩ := List.mem_flatMap.mp mem
    exact ⟨s, older, of_items mem⟩
  rcases at_focus : x.focus with _ | ⟨k, a⟩ | s
  · rw [stack, at_focus] at mem
    cases mem
  · rw [stack_of_code at_focus] at mem
    rcases List.mem_cons.mp mem with same | mem
    · cases same
    · exact Or.inl (of_below mem)
  · rw [stack, at_focus] at mem
    rcases List.mem_append.mp mem with here | mem
    · exact Or.inr ⟨s, rfl, of_items here⟩
    · exact Or.inl (of_below mem)

omit [Traced Obj] in
theorem Unpumped.countP_dispatches (unpumped : x.Unpumped) (wait : x.DispatchesWait)
    (none_next : ¬ x.AtTask (.dispatch f)) : x.stack.countP (dispatches f) = 0 := by
  apply List.countP_eq_zero.mpr
  intro i mem counts
  cases i with
  | code => cases counts
  | task t =>
    cases t with
    | dispatch g =>
      obtain rfl : g = f := by simpa [Execution.dispatches] using counts
      rcases exists_frame_of_mem mem with ⟨s, older, waits⟩ | ⟨s, at_focus, waits⟩
      · have mem_frames : s ∈ x.frames := by
          unfold frames
          split
          · exact List.mem_cons_of_mem _ older
          · exact older
        exact unpumped s mem_frames (wait.below s older g waits)
      · rcases wait.focus s at_focus g waits with pump | alone
        · exact unpumped s (frames_of_bridge at_focus ▸ List.mem_cons_self) pump
        · exact none_next (atTask_of_bridge at_focus alone)
    | _ => cases counts

structure PumpCourse (x : Execution E) (m : Nat) (k : Call Obj) (resume : Nat → E.Activity) :
    Prop where
  emptied : (x.run (m + 1)).world.queue.waiting = []
  proceeds : ∀ n, m < n → ∃ done left ran l, (x.run m).world.queue.waiting = done ++ left ∧
    x.Dispatches (m + 1) done ran l ∧ l ≤ n ∧
    ∀ f ∈ left.head?, (x.run l).AtTask (.dispatch f) ∧ (x.run l).Unfinished (n - l)
  answers : ∀ ran n, x.Dispatches (m + 1) (x.run m).world.queue.waiting ran n →
    (x.run (n + 1)).focus = .code k (resume ran.length) ∧
      (x.run (n + 1)).below = (x.run m).below ∧ (x.run (n + 1)).world = (x.run n).world

theorem Requests.pumpCourse {k : Call Obj} {resume : Nat → E.Activity}
    (requests : (x.run m).Requests k .pump resume) : x.PumpCourse m k resume := by
  obtain ⟨at_bridge, below, world⟩ := requests.run_one
  rw [← run_add] at at_bridge below world
  refine ⟨by rw [world]; rfl, ?_, ?_⟩
  · intro n lt
    obtain ⟨done, left, l, split, turns, le, goes_on⟩ := exists_inTurn requests.batch lt
    obtain ⟨done, left, parts, rfl, rfl⟩ := List.map_eq_append_iff.mp split
    obtain ⟨ran, dispatches⟩ := turns.dispatches
    refine ⟨done, left, ran, l, parts, dispatches, le, ?_⟩
    intro f mem
    apply goes_on
    rw [List.head?_map, Option.mem_def.mp mem]
    rfl
  · intro ran n dispatches
    have todo : (Procedure.start (x.run m).world .pump).first =
        (x.run m).world.queue.waiting.map (Task.dispatch : Fire → Task Obj) ++ [] :=
      (List.append_nil _).symm
    obtain ⟨p, here, below', count⟩ := dispatches.resumes at_bridge todo
    obtain ⟨_, focus, below'', world⟩ := done_endsAt here rfl
    rw [← run_add] at focus below'' world
    refine ⟨?_, below''.trans (below'.trans below), world⟩
    rw [focus, Procedure.answer, count]
    exact congrArg (fun count => Focus.code k (resume count)) (Nat.zero_add _)

structure FiresFlow (x : Execution E) : Prop where
  batches : ∀ n, (x.run n).posted = (x.batches n).flatten ++ (x.run n).world.queue.waiting
  pumps : ∀ m k resume, (x.run m).Requests k .pump resume → x.PumpCourse m k resume
  balance : ∀ n f, (x.run n).dispatched.count f + (x.run n).stack.countP (dispatches f) +
      (x.run n).world.queue.waiting.count f = (x.run n).posted.count f + x.asked f n
  settled : ∀ n, (x.run n).Unpumped →
    (∀ m < n, ∀ k resume, (x.run m).Requests k .pump resume →
      ∃ ran l, l ≤ n ∧ x.Dispatches (m + 1) (x.run m).world.queue.waiting ran l) ∧
    ∀ f, ¬ (x.run n).AtTask (.dispatch f) →
      (x.run n).dispatched.count f + (x.run n).world.queue.waiting.count f =
        (x.run n).posted.count f + x.asked f n
  ignored : ∀ n f, (x.run n).AtTask (.dispatch f) →
    ((x.run n).world.isLive f.target.context = false ∨
      (x.run n).world.isValid f.target.context = false ∨
        ((x.run n).world.timers f.target.context).contains f.target.timer = false) →
    ∃ j ≤ 2, (x.run n).Ignored j
  unfound : ∀ n c id error, (x.run n).AtTask (.fire c id error) →
    ((x.run n).world.isValid c = false ∨ ((x.run n).world.timers c).contains id = false) →
    (x.run n).Ignored 1

theorem fires_flow (blank : x.Blank) (nothing_queued : x.world.queue.waiting = [])
    (no_history : x.history = []) : x.FiresFlow := by
  have balance := dispatched_balance blank nothing_queued no_history
  constructor
  · exact posted_eq nothing_queued no_history
  · exact fun m k resume requests => requests.pumpCourse
  · exact fun n f => balance f n
  · intro n unpumped
    refine ⟨fun m lt k resume requests => unpumped.all_dispatched requests lt, ?_⟩
    intro f none_next
    have all := balance f n
    rwa [unpumped.countP_dispatches (dispatchesWait_run blank n) none_next, Nat.add_zero] at all
  · intro n f next unknown
    exact dispatch_ignored next (World.armed?_eq_none_iff.mpr unknown)
  · intro n c id error next unknown
    exact fire_ignored next (World.ready?_eq_none_iff.mpr unknown)

def pumpInCallback : Call (List Handle) → List (Order (List Handle) Manual)
  | .function c (.timer ⟨1⟩ _) .. =>
    [.command (.post ⟨⟨c, ⟨2⟩⟩, none⟩), .procedure .pump, .command (.post ⟨⟨c, ⟨2⟩⟩, none⟩)]
  | _ => []

def nestedPump : Execution (plan pumpInCallback) :=
  planned {} _ [.command (.createContext none), .command (.setTimer ⟨1⟩ .repeating .null .zero []),
    .command (.setTimer ⟨1⟩ .repeating .null .zero []), .command (.post ⟨⟨⟨1⟩, ⟨1⟩⟩, none⟩),
    .command (.post ⟨⟨⟨7⟩, ⟨1⟩⟩, none⟩), .procedure .pump]

/-- The nested pump and the outer one each run one fire, and the last one is left. -/
theorem nested_pump_leaves_the_last :
    (nestedPump.run 40).posted = [⟨⟨⟨1⟩, ⟨1⟩⟩, none⟩, ⟨⟨⟨7⟩, ⟨1⟩⟩, none⟩, ⟨⟨⟨1⟩, ⟨2⟩⟩, none⟩,
        ⟨⟨⟨1⟩, ⟨2⟩⟩, none⟩] ∧
      (nestedPump.run 40).world.queue.waiting = [⟨⟨⟨1⟩, ⟨2⟩⟩, none⟩] ∧
      (∃ ran l, l ≤ 40 ∧
        nestedPump.Dispatches 6 [⟨⟨⟨1⟩, ⟨1⟩⟩, none⟩, ⟨⟨⟨7⟩, ⟨1⟩⟩, none⟩] ran l) ∧
      (∃ ran l, l ≤ 40 ∧ nestedPump.Dispatches 11 [⟨⟨⟨1⟩, ⟨2⟩⟩, none⟩] ran l) ∧
      (nestedPump.run 40).history.filterMap Event.pumpAnswer? = [1, 1] := by
  have flow := fires_flow (x := nestedPump) ⟨rfl, rfl⟩ rfl rfl
  have halted : (nestedPump.run 40).frames.isEmpty = true := by decide +kernel
  have unpumped : (nestedPump.run 40).Unpumped := by
    intro s mem
    rw [List.isEmpty_iff.mp halted] at mem
    cases mem
  have outer : (nestedPump.run 5).Requests .session .pump fun _ => [] := plan_requests rfl
  have inner := plan_requests (x := nestedPump.run 10) (p := .pump) rfl
  have dispatched := (flow.settled 40 unpumped).1
  refine ⟨by decide +kernel, by decide +kernel, ?_, ?_, by decide +kernel⟩
  · exact dispatched 5 (by decide) _ _ outer
  · exact dispatched 10 (by decide) _ _ inner

end Execution

end HostBridge
