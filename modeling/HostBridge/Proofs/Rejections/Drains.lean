import HostBridge.Proofs.Contexts.Change
import HostBridge.Proofs.Execution.Sources
import HostBridge.Proofs.Rejections.Takings
/-!
# The course of a drain

A drain runs promise jobs until the host has none left, and then it flushes the tracked rejections.
While its jobs run it refuses every other drain of the context, so that no drain takes a batch then.
The flush is not guarded: a handler of one of its events may drain the context again, which reports
the open episodes once more, and the jobs that a handler queues are left.
-/

namespace HostBridge

variable {Obj τ : Type} [Facility τ]

/-- `idle` holds of the states in which no promise job is queued: it holds whenever the code of a
job call returns that there was none to run. -/
def Embedder.TellsIdle (E : Embedder Obj τ) (idle : E.State → Prop) : Prop :=
  ∀ (c : ContextId) (w : World Obj τ) (state : E.State) (a : E.Activity) (state' : E.State)
    (notes : List E.Note), E.next (.job c) w state a = ⟨state', notes, .finish none⟩ → idle state'

namespace Execution

variable {E : Embedder Obj τ} {x y : Execution E} {c : ContextId}

structure Drains (x : Execution E) (c : ContextId) : Prop where
  next : x.AtTask (.drain c)
  valid : x.world.isValid c = true
  outside : .task (.endDrain c) ∉ x.stack

def Refuses (x : Execution E) (c : ContextId) : Prop :=
  ∃ a, x.world.context? c = some a ∧ a.draining = true

theorem Changes.draining {a b : Context} (changes : x.Changes c a b) (draining : a.draining = true)
    (goes_on : ¬ x.AtTask (.endDrain c)) : b.draining = true := by
  cases changes with
  | drainEnded ends => exact absurd ends goes_on
  | disposed =>
    rw [Context.dispose]
    split <;> exact draining
  | timerSet | timerInstalled | timerRemoved | timerFired | levelSet | timerRetired | frameRequested
  | frameRegistered | frameCancelled | frameTaken | rejectionTracked | handlerTracked | batchTaken
  | drainBegun | classesKept | reclaimed | kept => first | exact draining | rfl

theorem Changes.begins_drain {a b : Context} (changes : x.Changes c a b)
    (free : a.draining = false) (draining : b.draining = true) :
    x.AtTask (.drain c) ∧ a.valid = true := by
  cases changes with
  | drainBegun drains valid => exact ⟨drains, valid⟩
  | disposed =>
    rw [Context.dispose] at draining
    split at draining <;> cases free.symm.trans draining
  | timerSet | timerInstalled | timerRemoved | timerFired | levelSet | timerRetired | frameRequested
  | frameRegistered | frameCancelled | frameTaken | rejectionTracked | handlerTracked | batchTaken
  | drainEnded | classesKept | reclaimed | kept =>
    first | cases free.symm.trans draining | cases draining

variable [Traced Obj]

theorem Refuses.rewrites (refuses : x.Refuses c) (goes_on : ¬ x.AtTask (.endDrain c))
    (rewrites : Rewrites x y) : y.Refuses c := by
  obtain ⟨a, found, draining⟩ := refuses
  have outcome := rewrites.outcome c
  rw [found] at outcome
  generalize after : y.world.context? c = o at outcome
  cases outcome with
  | changed changes => exact ⟨_, after, changes.draining draining goes_on⟩

theorem Refuses.idle (refuses : x.Refuses c) {rest : List (Item Obj)}
    (top : x.stack = .task (.drain c) :: rest) (rewrites : Rewrites x y) :
    y.stack = rest ∧ y.world = x.world := by
  obtain ⟨a, found, draining⟩ := refuses
  obtain ⟨p, stack, world⟩ := rewrites.of_task top fun k same => nomatch same
  rw [stack, world]
  simp [Task.run, found, draining]

theorem Rewrites.of_drain {a : Context} {rest : List (Item Obj)} (rewrites : Rewrites x y)
    (top : x.stack = .task (.drain c) :: rest) (found : x.world.context? c = some a)
    (valid : a.valid = true) (free : a.draining = false) :
    y.stack = .task (.call (.job c)) :: .task (.endDrain c) :: rest ∧ y.Refuses c := by
  obtain ⟨p, stack, world⟩ := rewrites.of_task top fun k same => nomatch same
  constructor
  · rw [stack]
    simp [Task.run, found, valid, free]
  · have kept : ∀ b : Context, b.id = c → { b with draining := true }.id = c := fun b here => here
    refine ⟨{ a with draining := true }, ?_, rfl⟩
    rw [world]
    simp [Task.run, found, valid, free, World.context?_update _ kept]

theorem Rewrites.of_endDrain {rest : List (Item Obj)} (rewrites : Rewrites x y)
    (top : x.stack = .task (.endDrain c) :: rest) : ¬ y.Refuses c := by
  rintro ⟨b, after, draining⟩
  obtain ⟨p, _, world⟩ := rewrites.of_task top fun k same => by cases same
  have kept : ∀ b : Context, b.id = c → { b with draining := false }.id = c := fun b here => here
  rw [world] at after
  simp only [Task.run, World.context?_update _ kept, if_true] at after
  obtain ⟨a, _, rfl⟩ := Option.map_eq_some_iff.mp after
  cases draining

theorem Refuses.endDrain_mem (blank : x.Blank) {n : Nat} (refuses : (x.run n).Refuses c) :
    .task (.endDrain c) ∈ (x.run n).stack := by
  induction n with
  | zero =>
    obtain ⟨a, found, _⟩ := refuses
    rw [run_zero, World.context?, blank.no_context] at found
    cases found
  | succ n ih =>
    have rewrites := x.run_rewrites n
    by_cases ends : (x.run n).AtTask (.endDrain c)
    · obtain ⟨rest, top⟩ := ends
      exact absurd refuses (rewrites.of_endDrain top)
    by_cases before : (x.run n).Refuses c
    · obtain ⟨i, rest, top⟩ := List.exists_cons_of_ne_nil (List.ne_nil_of_mem (ih before))
      obtain ⟨pushed, stack⟩ := rewrites.below top
      rw [stack]
      apply List.mem_append_right
      rcases List.mem_cons.mp (top ▸ ih before) with rfl | later
      · exact absurd ⟨rest, top⟩ ends
      · exact later
    · -- Drains were not refused before, so a drain has begun now and has put its end on the stack.
      obtain ⟨b, after, draining⟩ := refuses
      have outcome := rewrites.outcome c
      rw [after] at outcome
      generalize found : (x.run n).world.context? c = o at outcome
      cases outcome with
      | created => cases draining
      | @changed a _ changes =>
        cases free : a.draining with
        | true => exact absurd ⟨a, found, free⟩ before
        | false =>
          obtain ⟨⟨rest, top⟩, valid⟩ := changes.begins_drain free draining
          rw [(rewrites.of_drain top found valid free).1]
          exact List.mem_cons_of_mem _ List.mem_cons_self

theorem Drains.free (blank : x.Blank) {n : Nat} (drains : (x.run n).Drains c) :
    ∃ a, (x.run n).world.context? c = some a ∧ a.valid = true ∧ a.draining = false := by
  have valid := drains.valid
  rw [World.isValid] at valid
  cases found : (x.run n).world.context? c with
  | none => simp [found] at valid
  | some a =>
    refine ⟨a, rfl, by simpa [found] using valid, ?_⟩
    cases draining : a.draining with
    | false => rfl
    | true => exact absurd (Refuses.endDrain_mem blank ⟨a, found, draining⟩) drains.outside

inductive JobLoop (c : ContextId) : List (Item Obj) → Prop
  | next : JobLoop c [.task (.call (.job c))]
  | running (above : List (Item Obj)) : JobLoop c (above ++ [.code (.job c)])
  | thrown (v : Value) : JobLoop c [.task (.call (.report c v)), .task (.call (.job c))]
  | reporting (above : List (Item Obj)) (v : Value) :
      JobLoop c (above ++ [.code (.report c v), .task (.call (.job c))])

/-- Jobs run until the host says that there was none to run. -/
theorem JobLoop.rewrites {pre rest : List (Item Obj)} (loop : JobLoop c pre)
    (top : x.stack = pre ++ rest) (more : rest ≠ []) (rewrites : Rewrites x y) :
    (∃ pre', JobLoop c pre' ∧ y.stack = pre' ++ rest) ∨
      y.stack = rest ∧ x.Returns (.job c) none := by
  cases loop with
  | next =>
    obtain ⟨stack, _⟩ := rewrites.of_call top
    exact Or.inl ⟨_, .running [], stack⟩
  | running above =>
    rw [List.append_assoc] at top
    rcases rewrites.of_code top with ⟨above', stack⟩ | ⟨_, ⟨r, p, returns, stack⟩ | ⟨nothing, _⟩⟩
    · exact Or.inl ⟨_, .running above', by rw [stack, List.append_assoc]; rfl⟩
    · rcases r with _ | thrown | _
      · exact Or.inr ⟨stack, returns⟩
      · exact Or.inl ⟨_, .thrown thrown, stack⟩
      · exact Or.inl ⟨_, .next, stack⟩
    · exact absurd nothing more
  | thrown v =>
    obtain ⟨stack, _⟩ := rewrites.of_call top
    exact Or.inl ⟨_, .reporting [] v, stack⟩
  | reporting above v =>
    rw [List.append_assoc] at top
    rcases rewrites.of_code top with ⟨above', stack⟩ | ⟨_, ⟨r, p, _, stack⟩ | ⟨nothing, _⟩⟩
    · exact Or.inl ⟨_, .reporting above' v, by rw [stack, List.append_assoc]; rfl⟩
    · exact Or.inl ⟨_, .next, stack⟩
    · exact nomatch nothing

omit [Facility τ] [Traced Obj] in
theorem JobLoop.ne_nil {pre : List (Item Obj)} (loop : JobLoop c pre) : pre ≠ [] := by
  cases loop with
  | next | thrown => exact List.cons_ne_nil _ _
  | running | reporting => exact List.append_ne_nil_of_right_ne_nil _ (List.cons_ne_nil _ _)

def endsDrain (c : ContextId) : Item Obj → Bool
  | .task (.endDrain c') => c' == c
  | _ => false

def BeginsNone (x : Execution E) (c : ContextId) : Prop :=
  x.AtTask (.drain c) → x.world.isValid c = true → x.Refuses c

theorem BeginsNone.idle (begins_none : x.BeginsNone c) {rest : List (Item Obj)}
    (top : x.stack = .task (.drain c) :: rest) (rewrites : Rewrites x y) : y.stack = rest := by
  by_cases valid : x.world.isValid c = true
  · exact ((begins_none ⟨rest, top⟩ valid).idle top rewrites).1
  · obtain ⟨p, stack, _⟩ := rewrites.of_task top fun k same => nomatch same
    rw [stack]
    unfold World.isValid at valid
    cases found : x.world.context? c with
    | none => simp [Task.run, found]
    | some a =>
      rw [found] at valid
      have disposed : a.valid = false := by simpa using valid
      simp [Task.run, found, disposed]

theorem BeginsNone.countP_endsDrain (begins_none : x.BeginsNone c) (rewrites : Rewrites x y) :
    y.stack.countP (endsDrain c) ≤ x.stack.countP (endsDrain c) := by
  by_cases drains : x.AtTask (.drain c)
  · obtain ⟨rest, top⟩ := drains
    rw [begins_none.idle top rewrites, top, List.countP_cons]
    exact Nat.le_add_right _ _
  · refine rewrites.countP_le ?_ fun _ _ => rfl
    intro t brings
    cases brings with
    | @endDrain c' here _ =>
      apply beq_false_of_ne
      rintro rfl
      exact drains here
    | _ => rfl

structure RunsJobs (x : Execution E) (c : ContextId) (pre rest : List (Item Obj)) : Prop where
  stack : x.stack = pre ++ .task (.endDrain c) :: rest
  loop : JobLoop c pre
  refuses : x.Refuses c
  alone : pre.countP (endsDrain c) = 0

omit [Traced Obj] in
theorem RunsJobs.goes_on {pre rest : List (Item Obj)} (runs : x.RunsJobs c pre rest) :
    ¬ x.AtTask (.endDrain c) := by
  rintro ⟨behind, top⟩
  obtain ⟨i, more, rfl⟩ := List.exists_cons_of_ne_nil runs.loop.ne_nil
  obtain ⟨rfl, _⟩ := List.cons.inj (runs.stack.symm.trans top)
  have none_is := List.countP_eq_zero.mp runs.alone _ List.mem_cons_self
  simp [endsDrain] at none_is

theorem RunsJobs.rewrites {pre rest : List (Item Obj)} (runs : x.RunsJobs c pre rest)
    (rewrites : Rewrites x y) : (∃ pre', y.RunsJobs c pre' rest) ∨
      y.stack = .task (.endDrain c) :: rest ∧ x.Returns (.job c) none := by
  rcases runs.loop.rewrites runs.stack (List.cons_ne_nil _ _) rewrites with
    ⟨pre', loop, stack⟩ | done
  · have begins_none : x.BeginsNone c := fun _ _ => runs.refuses
    have fewer := begins_none.countP_endsDrain rewrites
    rw [runs.stack, stack, List.countP_append, List.countP_append, runs.alone] at fewer
    exact Or.inl ⟨pre', stack, loop, runs.refuses.rewrites runs.goes_on rewrites, by omega⟩
  · exact Or.inr done

/-- The jobs of a drain are done when it is the turn of its end, unless they never are. -/
theorem jobs_of_drain {a : Context} {rest : List (Item Obj)}
    (top : x.stack = .task (.drain c) :: rest) (found : x.world.context? c = some a)
    (valid : a.valid = true) (free : a.draining = false) (n : Nat) :
    (∀ l, 0 < l → l ≤ n → ∃ pre, (x.run l).RunsJobs c pre rest) ∨
      ∃ f, 0 < f ∧ f < n ∧ (∀ l, 0 < l → l ≤ f → ∃ pre, (x.run l).RunsJobs c pre rest) ∧
        (x.run f).Returns (.job c) none ∧ (x.run (f + 1)).stack = .task (.endDrain c) :: rest := by
  induction n with
  | zero => exact Or.inl fun l pos le => absurd pos (by omega)
  | succ n ih =>
    rcases ih with runs | ⟨f, pos, lt, done⟩
    · rcases Nat.eq_zero_or_pos n with rfl | pos
      · obtain ⟨stack, refuses⟩ := (x.run_rewrites 0).of_drain top found valid free
        refine Or.inl fun l pos le => ⟨[.task (.call (.job c))], ?_⟩
        obtain rfl : l = 1 := by omega
        exact ⟨stack, .next, refuses, rfl⟩
      · obtain ⟨pre, here⟩ := runs n pos (Nat.le_refl n)
        rcases here.rewrites (x.run_rewrites n) with still | ⟨stack, returns⟩
        · left
          intro l l_pos le
          rcases Nat.le_succ_iff.mp le with earlier | rfl
          · exact runs l l_pos earlier
          · exact still
        · exact Or.inr ⟨n, pos, Nat.lt_succ_self n, runs, returns, stack⟩
    · exact Or.inr ⟨f, pos, Nat.lt_succ_of_lt lt, done⟩

/-- The course of a drain that takes `n` steps and whose jobs are done after `f` steps. -/
structure Course (x : Execution E) (c : ContextId) (idle : E.State → Prop) (f n : Nat) : Prop where
  flushes : f + 1 < n ∧ (x.run f).AtTask (.endDrain c) ∧ (x.run (f + 1)).AtTask (.flush c)
  refuses : ∀ l, 0 < l → l < f → ∀ behind, (x.run l).stack = .task (.drain c) :: behind →
    (x.run (l + 1)).stack = behind ∧ (x.run (l + 1)).world = (x.run l).world
  reports : ∀ e, x.times (·.Reports c .unhandledRejection e) n = x.times (·.Takes c e) n
  once : (∀ l < n, (x.run l).TakesBatch c → l = f + 1) →
    ∀ e, x.times (·.Reports c .unhandledRejection e) n ≤ 1
  idle_at_flush : idle (x.run (f + 1)).state
  idle_or_handled : idle (x.run n).state ∨
    ∃ l, f + 1 < l ∧ l < n ∧ ∃ kind r, (x.run l).AtTask (.call (.event c kind r))

/-- The reports of a drain are balanced by the batches taken in it, since what waits below is not
touched. -/
theorem FinishesAt.reports_eq_takes {n : Nat} (finishes : x.FinishesAt n)
    (sound : ∀ n, ((x.run n).world.rejections c).Sound) {t : Task Obj} {rest : List (Item Obj)}
    (top : x.stack = .task t :: rest) (silent : Item.report? c (.task t) = none) (e : Episode) :
    x.times (·.Reports c .unhandledRejection e) n = x.times (·.Takes c e) n := by
  have balance := reports_add_awaiting (e := e) sound n
  have below : (x.run n).awaiting c = x.awaiting c := by
    rw [awaiting, finishes.stack top, awaiting, top, List.filterMap_cons_none silent]
  rw [below] at balance
  exact Nat.add_right_cancel balance

theorem FinishesAt.lt_of_stack {i : Item Obj} {pre rest : List (Item Obj)} {l n : Nat}
    (finishes : x.FinishesAt n) (top : x.stack = i :: rest) (here : (x.run l).stack = pre ++ rest)
    (le : l ≤ n) (more : pre ≠ []) : l < n := by
  apply Nat.lt_of_le_of_ne le
  rintro rfl
  rw [finishes.stack top] at here
  exact more (List.self_eq_append_left.mp here)

theorem Course.handled {idle : E.State → Prop} {l n : Nat} {t : Task Obj} {rest : List (Item Obj)}
    (finishes : x.FinishesAt n) (top : x.stack = .task t :: rest)
    (here : (x.run l).stack = .task (.flush c) :: rest) (lt : l < n)
    (none_queued : idle (x.run l).state) : idle (x.run n).state ∨
      ∃ m, l < m ∧ m < n ∧ ∃ kind r, (x.run m).AtTask (.call (.event c kind r)) := by
  obtain ⟨_, stack, _⟩ := (x.run_rewrites l).of_task here fun k same => nomatch same
  have flushed : (x.run (l + 1)).stack =
      (((x.run l).world.batch c).tasks c).map .task ++ rest := stack
  rcases events : ((x.run l).world.batch c).tasks c with _ | ⟨u, more⟩
  · left
    rw [events] at flushed
    have last : n = l + 1 := by
      by_contra other
      have long := finishes.1 (l + 1) (by omega)
      rw [top, flushed] at long
      exact absurd long (by simp)
    rwa [last, AtTask.state_run_succ ⟨_, here⟩]
  · right
    rw [events] at flushed
    have event : ∃ kind r, u = .call (.event c kind r) := by
      have mem : u ∈ ((x.run l).world.batch c).tasks c := events ▸ List.mem_cons_self
      rcases List.mem_append.mp mem with here | here
      · obtain ⟨r, _, rfl⟩ := List.mem_map.mp here
        exact ⟨_, r, rfl⟩
      · obtain ⟨r, _, rfl⟩ := List.mem_map.mp here
        exact ⟨_, r, rfl⟩
    obtain ⟨kind, r, rfl⟩ := event
    have before := finishes.lt_of_stack top flushed lt (by simp)
    exact ⟨l + 1, Nat.lt_succ_self l, before, kind, r, _, flushed⟩

/-- A drain runs the jobs until none is queued, refuses drains until then, and flushes. An episode is
reported in it as often as it is in a batch that is taken before it ends. -/
theorem drain_takes_course (blank : x.Blank) {idle : E.State → Prop} (tells : E.TellsIdle idle)
    {s n : Nat} (drains : (x.run s).Drains c) (finishes : (x.run s).FinishesAt n) :
    ∃ f, (x.run s).Course c idle f n := by
  obtain ⟨rest, top⟩ := drains.next
  obtain ⟨a, found, valid, free⟩ := drains.free blank
  have sound : ∀ l, (((x.run s).run l).world.rejections c).Sound := by
    intro l
    rw [← run_add]
    exact rejections_sound blank c (s + l)
  have reports := finishes.reports_eq_takes sound top rfl
  rcases jobs_of_drain top found valid free n with runs | ⟨f, _, lt, runs, returns, ended⟩
  · obtain ⟨m, rfl, _⟩ := finishes.exists_succ
    obtain ⟨pre, still⟩ := runs (m + 1) (Nat.succ_pos m) (Nat.le_refl _)
    have past := finishes.stack top
    rw [still.stack] at past
    exact absurd (congrArg List.length past) (by simp; omega)
  · have before_end : f + 1 < n := finishes.lt_of_stack top ended lt (List.cons_ne_nil _ [])
    obtain ⟨_, flushing, _⟩ :=
      ((x.run s).run_rewrites (f + 1)).of_task ended fun k same => nomatch same
    have before_flush : f + 2 < n :=
      finishes.lt_of_stack top flushing before_end (by simp [Task.run])
    obtain ⟨a, notes, turn⟩ := returns.state_run_succ
    have none_queued : idle ((x.run s).run (f + 2)).state := by
      rw [AtTask.state_run_succ ⟨rest, ended⟩]
      exact tells c _ _ a _ notes turn
    refine ⟨f + 1, ⟨before_flush, ⟨rest, ended⟩, rest, flushing⟩, ?_, reports, ?_, none_queued, ?_⟩
    · intro l pos before behind here
      obtain ⟨pre, running⟩ := runs l pos (by omega)
      exact running.refuses.idle here ((x.run s).run_rewrites l)
    · intro alone e
      rw [reports e]
      exact times_le_one fun l l_lt takes => alone l l_lt takes.1
    · exact Course.handled finishes top flushing before_flush none_queued

section Jobs

variable {Obj τ : Type} [Facility τ]

def jobPlan (body : Call Obj → List (Order Obj τ)) : Embedder Obj τ where
  State := Nat
  Activity := List (Order Obj τ)
  Note := Empty
  types _ := { className := "" }
  alive _ heap x := heap.alive x
  enter := body
  next k _ jobs orders := match orders with
    | .command c :: rest => ⟨jobs, [], .command c fun _ => rest⟩
    | .procedure p :: rest => ⟨jobs, [], .procedure p fun _ => rest⟩
    | [] => match k, jobs with
      | .job _, left + 1 => ⟨left, [], .finish (some (.ok ()))⟩
      | k, jobs => ⟨jobs, [], .finish k.plainReply⟩

theorem jobPlan_tellsIdle (body : Call Obj → List (Order Obj τ)) :
    (jobPlan body).TellsIdle fun jobs : Nat => jobs = 0 := by
  intro c w (jobs : Nat) (orders : List (Order Obj τ)) state' notes turn
  rcases orders with _ | ⟨_ | _, rest⟩
  · rcases jobs with _ | left
    · exact (congrArg Turn.state turn).symm
    · exact nomatch congrArg Turn.move turn
  · exact nomatch congrArg Turn.move turn
  · exact nomatch congrArg Turn.move turn

end Jobs

def drainInJob : Call (List Handle) → List (Order (List Handle) Manual)
  | .job c => [.procedure (.drain c)]
  | _ => []

def drainedInJob : Execution (jobPlan drainInJob) :=
  start { heap := .withThreshold 1024, facility := {} } (2 : Nat)
    [.command (.createContext none), .command (.trackUnhandled ⟨1⟩ ⟨0, 0⟩ .null),
      .procedure (.drain ⟨1⟩)]

theorem drained_in_job_is_reported_once :
    (drainedInJob.run 6).AtTask (.drain ⟨1⟩) ∧
      ∃ f, (drainedInJob.run 3).Course ⟨1⟩ (fun jobs : Nat => jobs = 0) f 20 := by
  have here : (drainedInJob.run 3).stack = [.task (.drain ⟨1⟩), .code .session] := rfl
  have drains : (drainedInJob.run 3).Drains ⟨1⟩ := ⟨⟨_, here⟩, rfl, by simp [here]⟩
  have finishes : (drainedInJob.run 3).FinishesAt 20 := by
    constructor
    · have long : ∀ m < 20, 2 ≤ ((drainedInJob.run 3).run m).stack.length := by decide +kernel
      exact long
    · decide +kernel
  exact ⟨⟨_, rfl⟩, drain_takes_course ⟨rfl, rfl⟩ (jobPlan_tellsIdle _) drains finishes⟩

def drainInHandler : Call (List Handle) → List (Order (List Handle) Manual)
  | .event c .unhandledRejection r =>
    if r.promise = ⟨0, 0⟩ then
      [.command (.trackHandled c ⟨0, 0⟩ .null), .procedure (.drain c)]
    else []
  | _ => []

def drainedInHandler : Execution (plan drainInHandler) :=
  planned {} _ [.command (.createContext none), .command (.trackUnhandled ⟨1⟩ ⟨0, 0⟩ .null),
    .command (.trackUnhandled ⟨1⟩ ⟨1, 0⟩ .null), .procedure (.drain ⟨1⟩)]

/-- The second rejection is reported by the inner drain and by the outer one. -/
theorem drained_in_handler_is_reported_twice : drainedInHandler.Blank ∧
    (drainedInHandler.run 4).Drains ⟨1⟩ ∧ (drainedInHandler.run 4).FinishesAt 21 ∧
      ¬ ∀ e, (drainedInHandler.run 4).times (·.Reports ⟨1⟩ .unhandledRejection e) 21 ≤ 1 := by
  have here : (drainedInHandler.run 4).stack = [.task (.drain ⟨1⟩), .code .session] := rfl
  refine ⟨⟨rfl, rfl⟩, ⟨⟨_, here⟩, rfl, by simp [here]⟩, ?_, ?_⟩
  · constructor
    · have long : ∀ m < 21, 2 ≤ ((drainedInHandler.run 4).run m).stack.length := by decide +kernel
      exact long
    · decide +kernel
  · intro once
    have inner : ((drainedInHandler.run 4).run 13).Reports ⟨1⟩ .unhandledRejection ⟨⟨1, 0⟩, 1⟩ :=
      ⟨_, rfl, rfl⟩
    have outer : ((drainedInHandler.run 4).run 19).Reports ⟨1⟩ .unhandledRejection ⟨⟨1, 0⟩, 1⟩ :=
      ⟨_, rfl, rfl⟩
    have same := eq_of_times_le_one (once ⟨⟨1, 0⟩, 1⟩) (by decide) (by decide) inner outer
    exact nomatch same

end Execution

end HostBridge
