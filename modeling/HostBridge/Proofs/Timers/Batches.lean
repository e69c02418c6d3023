import HostBridge.Proofs.Timers.Posting
/-!
# Batches of fires

A pump takes all fires that are queued. So the posted fires are cut into the batches of the pumps, in
order, and what is still queued. No fire gets lost between its post and its dispatch, or is
dispatched twice.
-/

namespace HostBridge

variable {Obj τ : Type}

def Signal.dispatched? : Signal → Option Fire
  | dispatched f => some f
  | _ => none

theorem filterMap_dispatched_of_posted (fires : List Fire) :
    (fires.map Signal.posted).filterMap Signal.dispatched? = [] := by
  rw [List.filterMap_map]
  exact List.filterMap_eq_nil_iff.mpr fun _ _ => rfl

theorem filterMap_dispatched_of_cancelled (ts : List Target) :
    (ts.map Signal.cancelled).filterMap Signal.dispatched? = [] := by
  rw [List.filterMap_map]
  exact List.filterMap_eq_nil_iff.mpr fun _ _ => rfl

theorem Task.run_dispatched [Traced Obj] {t : Task Obj} (other : ∀ f, t ≠ .dispatch f)
    (env : Surroundings) (w : World Obj τ) (p : Progress) :
    (t.run env w p).signals.filterMap Signal.dispatched? = [] := by
  cases t with
  | dispatch f => exact absurd rfl (other f)
  | fire | drain | frames | frame | classObjects | defineClass =>
    simp only [run]
    repeat' split
    all_goals rfl
  | traceRoots r => cases r <;> rfl
  | letGo =>
    simp only [run]
    split <;> rfl
  | traceComplete r => cases r <;> rfl
  | _ => rfl

variable [Facility τ]

theorem World.disposeEach_dispatched (w : World Obj τ) (cs : List ContextId) :
    (w.disposeEach cs).2.filterMap Signal.dispatched? = [] := by
  induction cs generalizing w with
  | nil => rfl
  | cons c cs ih =>
    rw [disposeEach, List.filterMap_append, ih, List.append_nil]
    exact filterMap_dispatched_of_cancelled _

theorem Command.perform_dispatched (w : World Obj τ) (k : Command Obj τ) :
    (k.perform w).signals.filterMap Signal.dispatched? = [] := by
  cases k with
  | act a => exact filterMap_dispatched_of_posted _
  | close => exact World.disposeEach_dispatched _ _
  | disposeContext c => exact filterMap_dispatched_of_cancelled _
  | dispose c =>
    simp only [perform]
    split
    · exact filterMap_dispatched_of_cancelled _
    · rfl
  | allocate | retain =>
    simp only [perform]
    split <;> rfl
  | setTimer =>
    simp only [perform, setTimerIn]
    repeat' split
    all_goals rfl
  | clearTimer =>
    simp only [perform, clearTimerIn]
    repeat' split
    all_goals rfl
  | installTimer | removeTimer | requestFrame | registerFrame | cancelFrame | trackUnhandled
  | trackHandled | reclaim =>
    simp only [perform, inContext]
    split <;> rfl
  | write | setThreshold | post | listen | leave | createContext => rfl

variable {E : Embedder Obj τ}

def Event.signal? : Event E → Option Signal
  | signal s => some s
  | _ => none

namespace Execution

variable {x y : Execution E}

def signals (x : Execution E) : List Signal := x.history.reverse.filterMap Event.signal?

def posted (x : Execution E) : List Fire := x.signals.filterMap Signal.posted?

def dispatched (x : Execution E) : List Fire := x.signals.filterMap Signal.dispatched?

theorem Grows.signals {signals : List Signal} {last : List (Event E)}
    (grows : Grows x y signals last) (no_signal : last.filterMap Event.signal? = []) :
    y.signals = x.signals ++ signals := by
  obtain ⟨quiet, silent, history⟩ := grows
  have none_of_quiet : quiet.reverse.filterMap Event.signal? = [] := by
    apply List.filterMap_eq_nil_iff.mpr
    intro v mem
    have is_quiet := silent v (List.mem_reverse.mp mem)
    cases v <;> first | rfl | cases is_quiet
  have own : (signals.map (Event.signal (E := E))).filterMap Event.signal? = signals := by
    rw [List.filterMap_map]
    exact List.filterMap_some
  have none_last : last.reverse.filterMap Event.signal? = [] := by
    rw [List.filterMap_reverse, no_signal, List.reverse_nil]
  rw [Execution.signals, history, signalled]
  simp only [List.reverse_append, List.reverse_reverse, List.filterMap_append, none_of_quiet, own,
    none_last, List.append_nil, Execution.signals]

variable [Traced Obj] {n : Nat} {f : Fire}

theorem Requests.began {k : Call Obj} {p : Procedure} {resume : p.Answer → E.Activity}
    (requests : (x.run n).Requests k p resume) :
    (x.run (n + 1)).stack = (Procedure.start (x.run n).world p).first.map .task ++ (x.run n).stack ∧
      (x.run (n + 1)).world = (Procedure.start (x.run n).world p).world ∧
      (x.run (n + 1)).signals = (x.run n).signals := by
  obtain ⟨at_bridge, below, world⟩ := requests.run_one
  obtain ⟨a, state, notes, at_code, turn⟩ := requests
  rw [← run_add] at at_bridge below world
  refine ⟨?_, world, ?_⟩
  · rw [stack_of_bridge at_bridge, below, stack_of_code at_code]
  · have stepped : (x.run n).step = some ((x.run n).move k a) := by rw [step, at_code]
    have grows : Grows (x.run n) (x.run (n + 1)) [] [] := by
      rw [run_succ_of_step stepped]
      refine ⟨.began p :: (notes.map Event.note).reverse, quiet_cons rfl, ?_⟩
      simp [move, turn, record, advance, signalled, Procedure.start_signals]
    rw [grows.signals rfl, List.append_nil]

theorem signals_succ (unasked : (x.run n).requested? = none) :
    ∃ signals, (x.run (n + 1)).signals = (x.run n).signals ++ signals ∧
      (x.run (n + 1)).world.queue.waiting =
        (x.run n).world.queue.waiting ++ signals.filterMap Signal.posted? ∧
      ((∀ f, ¬ (x.run n).AtTask (.dispatch f)) → signals.filterMap Signal.dispatched? = []) := by
  have queue_of_host {w w' : World Obj τ} (same : w'.host = w.host) :
      w'.queue.waiting = w.queue.waiting := congrArg (fun host => host.2.waiting) same
  cases x.run_rewrites n with
  | idle _ _ world history | halted _ _ world history | called _ _ world history =>
    exact ⟨[], history.signals rfl, by simp [world], fun _ => rfl⟩
  | @performed c _ _ world history =>
    refine ⟨_, history.signals rfl, ?_, fun _ => c.perform_dispatched _⟩
    rw [world, c.perform_waiting]
  | began requests =>
    cases requests.requested?.symm.trans unasked
  | @returned k r p _ _ _ world history =>
    refine ⟨_, history.signals rfl, ?_, fun _ => by rw [Call.resume_signals]; rfl⟩
    rw [world, Call.resume_signals, queue_of_host (Call.resume_host ..)]
    simp
  | @worked t p rest top no_call _ world history =>
    refine ⟨_, history.signals rfl, ?_, ?_⟩
    · rw [world, Task.run_signals, queue_of_host (Task.run_host ..), List.append_nil]
    · intro no_dispatch
      apply Task.run_dispatched
      rintro f rfl
      exact no_dispatch f ⟨rest, top⟩

def batches (x : Execution E) (n : Nat) : List (List Fire) :=
  ((List.range n).filter fun m => (x.run m).requested? = some .pump).map
    fun m => (x.run m).world.queue.waiting

theorem batches_succ (x : Execution E) (n : Nat) : x.batches (n + 1) = x.batches n ++
    if (x.run n).requested? = some .pump then [(x.run n).world.queue.waiting] else [] := by
  by_cases pumps : (x.run n).requested? = some .pump <;> simp [batches, List.range_succ, pumps]

/-- Every posted fire is in one batch, that of the next pump, or it is still queued. -/
theorem posted_eq (nothing_queued : x.world.queue.waiting = []) (no_history : x.history = [])
    (n : Nat) :
    (x.run n).posted = (x.batches n).flatten ++ (x.run n).world.queue.waiting := by
  induction n with
  | zero => simp [posted, signals, batches, nothing_queued, no_history]
  | succ n ih =>
    rw [batches_succ]
    cases asked : (x.run n).requested? with
    | none =>
      obtain ⟨signals, told, queue, _⟩ := signals_succ asked
      rw [posted, told, List.filterMap_append, ← posted, ih, queue]
      simp
    | some p =>
      obtain ⟨k, resume, requests⟩ := requests_of_requested? asked
      obtain ⟨_, world, told⟩ := requests.began
      rw [posted, told, ← posted, ih, world]
      by_cases pump : p = .pump
      · subst pump
        simp [Procedure.start, FireQueue.drained]
      · have same := congrArg Prod.snd (Procedure.start_host pump (x.run n).world)
        simp only [World.host] at same
        simp [pump, same]

def dispatches (f : Fire) : Item Obj → Bool
  | .task (.dispatch f') => f' == f
  | _ => false

/-- How often code itself has asked for the dispatch of the fire in the first `n` steps. -/
def asked (x : Execution E) (f : Fire) (n : Nat) : Nat :=
  (List.range n).countP fun m => (x.run m).requested? = some (.dispatch f)

theorem asked_succ (x : Execution E) (f : Fire) (n : Nat) : x.asked f (n + 1) =
    x.asked f n + if (x.run n).requested? = some (.dispatch f) then 1 else 0 := by
  rw [asked, List.range_succ, List.countP_append, List.countP_singleton, ← asked]
  simp

omit [Traced Obj] in
theorem Brings.dispatch_requested (brings : x.Brings (.dispatch f)) :
    x.requested? = some (.dispatch f) ∨ x.requested? = some .pump := by
  cases brings with
  | dispatch requests => exact Or.inl requests.requested?
  | pumped requests => exact Or.inr requests.requested?

omit [Facility τ] [Traced Obj] in
theorem countP_dispatches_map (fires : List Fire) :
    ((fires.map (Task.dispatch : Fire → Task Obj)).map Item.task).countP (dispatches f) =
      fires.count f := by
  rw [List.map_map, List.countP_map, List.count]
  rfl

omit [Traced Obj] in
theorem Requests.dispatches {k : Call Obj} {p : Procedure} {resume : p.Answer → E.Activity}
    (requests : x.Requests k p resume) (f : Fire) :
    ((Procedure.start x.world p).first.map Item.task).countP (dispatches f) +
        (Procedure.start x.world p).world.queue.waiting.count f =
      x.world.queue.waiting.count f + if p = .dispatch f then 1 else 0 := by
  by_cases pump : p = .pump
  · subst pump
    simp only [Procedure.start, countP_dispatches_map, FireQueue.drained]
    simp
  have same := congrArg (fun host => host.2.waiting) (Procedure.start_host pump x.world)
  simp only [World.host] at same
  rw [same, Nat.add_comm]
  congr 1
  by_cases direct : p = .dispatch f
  · subst direct
    simp [Procedure.start, Execution.dispatches]
  · rw [if_neg direct, List.countP_eq_zero]
    intro i mem counts
    obtain ⟨t, here, rfl⟩ := List.mem_map.mp mem
    cases t with
    | dispatch f' =>
      obtain rfl : f' = f := by simpa [Execution.dispatches] using counts
      rcases (brings_start requests here).dispatch_requested with asked | asked
      · exact direct (Option.some.inj (requests.requested?.symm.trans asked))
      · exact pump (Option.some.inj (requests.requested?.symm.trans asked))
    | _ => cases counts

theorem dispatched_of_atTask {g : Fire} {rest : List (Item Obj)}
    (top : (x.run n).stack = .task (.dispatch g) :: rest) :
    (x.run (n + 1)).signals = (x.run n).signals ++ [.dispatched g] ∧
      (x.run (n + 1)).stack.countP (dispatches f) = rest.countP (dispatches f) := by
  cases x.run_rewrites n with
  | idle no_task => exact absurd ⟨rest, top⟩ (no_task _)
  | performed performs => exact absurd ⟨rest, top⟩ (performs.not_atTask _)
  | began requests => exact absurd ⟨rest, top⟩ (requests.atCode.not_atTask _)
  | returned here | halted here => cases top.symm.trans here
  | called here => cases top.symm.trans here
  | worked here _ stack _ history =>
    obtain ⟨same, rfl⟩ := List.cons.inj (top.symm.trans here)
    obtain rfl := Item.task.inj same
    refine ⟨history.signals rfl, ?_⟩
    rw [stack, List.countP_append]
    simp only [Task.run]
    split <;> simp [dispatches]

theorem countP_dispatches_succ (unasked : (x.run n).requested? = none)
    (no_dispatch : ∀ g, ¬ (x.run n).AtTask (.dispatch g)) :
    (x.run (n + 1)).stack.countP (dispatches f) = (x.run n).stack.countP (dispatches f) := by
  have none_brought : ∀ t, (x.run n).Brings t → dispatches f (.task t) = false := by
    intro t brings
    cases t with
    | dispatch =>
      rcases brings.dispatch_requested with asked | asked
      · cases asked.symm.trans unasked
      · cases asked.symm.trans unasked
    | _ => rfl
  obtain ⟨kept, count, rfl | ⟨i, top⟩⟩ :=
    (x.run_rewrites n).countP_kept none_brought fun _ _ => rfl
  · exact count
  · rw [count, top, List.countP_cons_of_neg]
    intro counts
    cases i with
    | task t =>
      cases t with
      | dispatch g => exact no_dispatch g ⟨kept, top⟩
      | _ => cases counts
    | code => cases counts

/-- A fire is dispatched as often as it has been posted, or code itself has asked for it, but for
what is queued and what pumps still have to dispatch. -/
theorem dispatched_balance (blank : x.Blank) (nothing_queued : x.world.queue.waiting = [])
    (no_history : x.history = []) (f : Fire) (n : Nat) :
    (x.run n).dispatched.count f + (x.run n).stack.countP (dispatches f) +
        (x.run n).world.queue.waiting.count f =
      (x.run n).posted.count f + x.asked f n := by
  induction n with
  | zero =>
    have empty : x.stack.countP (dispatches f) = 0 := blank.countP_stack fun _ => rfl
    simp [dispatched, posted, signals, asked, nothing_queued, no_history, empty]
  | succ n ih =>
    rw [asked_succ]
    cases request : (x.run n).requested? with
    | some p =>
      obtain ⟨k, resume, requests⟩ := requests_of_requested? request
      obtain ⟨stack, world, told⟩ := requests.began
      have moved := requests.dispatches f
      rw [dispatched, posted, told, ← dispatched, ← posted, stack, world, List.countP_append]
      simp only [Option.some.injEq]
      omega
    | none =>
      by_cases next : ∃ g, (x.run n).AtTask (.dispatch g)
      · obtain ⟨g, rest, top⟩ := next
        obtain ⟨told, stack⟩ := dispatched_of_atTask (f := f) top
        obtain ⟨signals, same, queue, _⟩ := signals_succ request
        obtain rfl := List.append_cancel_left (told.symm.trans same)
        -- The dispatch leaves the stack and is noted.
        rw [top, List.countP_cons] at ih
        rw [dispatched, posted, told, List.filterMap_append, List.filterMap_append, ← dispatched,
          ← posted, stack, queue, List.count_append]
        simp [Signal.dispatched?, Signal.posted?, List.count_singleton, dispatches] at ih ⊢
        omega
      · have no_dispatch := not_exists.mp next
        obtain ⟨signals, told, queue, none_dispatched⟩ := signals_succ request
        rw [dispatched, posted, told, List.filterMap_append, List.filterMap_append, ← dispatched,
          ← posted, countP_dispatches_succ request no_dispatch, queue, none_dispatched no_dispatch,
          List.count_append, List.count_append]
        simp
        omega

end Execution

end HostBridge
