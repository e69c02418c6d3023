import HostBridge.Proofs.Execution.Extent
import HostBridge.Proofs.Rejections.Tracking
/-!
# The events that wait

A batch is taken at once, but its events are dispatched one after the other, and handlers run in
between. Until its turn comes an event waits among the tasks of the procedure that took the batch.
`Tracks` lists all that a step can do to the tracked rejections of a context and to these events.
-/

namespace HostBridge

variable {Obj τ : Type}

abbrev RejectionEvent := EventKind × Rejection

/-- A time in which a promise is tracked, by the number it was given. -/
structure Episode where
  promise : Handle
  number : Nat
  deriving DecidableEq

def Rejection.inEpisode (r : Rejection) : Episode := ⟨r.promise, r.episode⟩

theorem Rejections.promise_of_find? {r : Rejections} {p : Handle} {found : Rejection}
    (here : r.find? p = some found) : found.promise = p := by
  have named := List.find?_some here
  simpa using named

theorem Rejections.mem_of_find? {r : Rejections} {p : Handle} {found : Rejection}
    (here : r.find? p = some found) : found ∈ r.unhandled :=
  List.mem_of_find?_eq_some here

def Rejections.Batch.events (b : Rejections.Batch) : List RejectionEvent :=
  b.unhandled.map (Prod.mk .unhandledRejection) ++ b.handled.map (Prod.mk .rejectionHandled)

theorem Rejections.Batch.mem_events {b : Rejections.Batch} {kind : EventKind} {r : Rejection} :
    (kind, r) ∈ b.events ↔
      kind = .unhandledRejection ∧ r ∈ b.unhandled ∨ kind = .rejectionHandled ∧ r ∈ b.handled := by
  cases kind <;> simp [events]

def Task.event? (c : ContextId) : Task Obj → Option RejectionEvent
  | .call (.event c' kind r) => if c' = c then some (kind, r) else none
  | _ => none

def eventsOf (c : ContextId) (tasks : List (Task Obj)) : List RejectionEvent :=
  tasks.filterMap (Task.event? c)

section Tasks

variable (c : ContextId)

@[simp] theorem eventsOf_nil : eventsOf c ([] : List (Task Obj)) = [] := rfl

@[simp] theorem eventsOf_append (ts us : List (Task Obj)) :
    eventsOf c (ts ++ us) = eventsOf c ts ++ eventsOf c us := List.filterMap_append

theorem eventsOf_cons (t : Task Obj) (ts : List (Task Obj)) :
    eventsOf c (t :: ts) = (t.event? c).toList ++ eventsOf c ts := by
  cases found : t.event? c <;> simp [eventsOf, found]

theorem eventsOf_eq_nil {ts : List (Task Obj)} (none_is : ∀ t ∈ ts, t.event? c = none) :
    eventsOf c ts = [] :=
  List.filterMap_eq_nil_iff.mpr none_is

theorem eventsOf_tasks (b : Rejections.Batch) :
    eventsOf c (b.tasks c : List (Task Obj)) = b.events := by
  simp [Rejections.Batch.tasks, Rejections.Batch.events, eventsOf, Task.event?,
    List.filterMap_append, List.filterMap_map, Function.comp_def]

theorem eventsOf_tasks_other {c' : ContextId} (other : c' ≠ c) (b : Rejections.Batch) :
    eventsOf c (b.tasks c' : List (Task Obj)) = [] := by
  apply eventsOf_eq_nil
  intro t mem
  rcases List.mem_append.mp mem with here | here
  · obtain ⟨r, _, rfl⟩ := List.mem_map.mp here
    exact if_neg other
  · obtain ⟨r, _, rfl⟩ := List.mem_map.mp here
    exact if_neg other

theorem eventsOf_dropped (w : World Obj τ) (n : Nat) (unreferenced : Bool) :
    eventsOf c (w.dropObject n unreferenced).2 = [] := by
  unfold World.dropObject
  split <;> rfl

theorem eventsOf_start {p : Procedure} (other : ¬ p.OfTracking) (w : World Obj τ) :
    eventsOf c (Procedure.start w p).first = [] := by
  cases p with
  | process => exact absurd trivial other
  | release n => exact eventsOf_dropped c _ _ _
  | collect roots =>
    simp only [Procedure.start]
    split
    · rfl
    · apply eventsOf_eq_nil
      intro t mem
      simp only [Procedure.collection, List.mem_append, List.mem_map, List.mem_cons,
        List.not_mem_nil, or_false] at mem
      rcases mem with (⟨r, _, rfl⟩ | rfl | rfl | rfl) | ⟨r, _, rfl⟩ <;> rfl
  | pump =>
    apply eventsOf_eq_nil
    intro t mem
    obtain ⟨f, _, rfl⟩ := List.mem_map.mp mem
    rfl
  | framesAll timestamp =>
    apply eventsOf_eq_nil
    intro t mem
    obtain ⟨c', _, rfl⟩ := List.mem_map.mp mem
    rfl
  | _ => rfl

theorem eventsOf_resume (types : TypeId → TypeDescriptor) (w : World Obj τ) (p : Progress)
    (k : Call Obj) (r : k.Reply) : eventsOf c (k.resume types w p r).first = [] := by
  cases k with
  | createClass c' t parent =>
    rcases r with _ | objects
    · rfl
    · simp only [Call.resume]
      split <;> rfl
  | install => rcases r with _ | _ <;> rfl
  | function => rcases r with _ | _ <;> rfl
  | job => rcases r with _ | _ | _ <;> rfl
  | _ => rfl

theorem eventsOf_fireTasks (c' : ContextId) (e : Entry TimerId Timer) (before : UInt32)
    (error : Option String) :
    eventsOf c (Task.fireTasks c' e before error : List (Task Obj)) = [] := by
  have retired : eventsOf c (if e.item.isOneShot then [Task.retire c' e.key] else [] :
      List (Task Obj)) = [] := by
    split <;> rfl
  cases error <;> simp [Task.fireTasks, eventsOf_cons, Task.event?, retired]

theorem event?_frameCall (c' : ContextId) (e : Entry FrameId FrameRequest) (timestamp : Double) :
    (Task.call (Task.frameCall c' e timestamp) : Task Obj).event? c = none := by
  unfold Task.frameCall
  split <;> rfl

theorem eventsOf_run [Traced Obj] {t : Task Obj} (other : ¬ t.OfTracking)
    (no_call : ∀ k, t ≠ .call k) (env : Surroundings) (w : World Obj τ) (p : Progress) :
    eventsOf c (t.run env w p).first = [] := by
  cases t with
  | call k => exact absurd rfl (no_call k)
  | flush => exact absurd trivial other
  | fire c' id error =>
    simp only [Task.run]
    split
    · split
      · exact eventsOf_fireTasks c ..
      · rfl
    · rfl
  | dispatch f =>
    simp only [Task.run]
    split <;> rfl
  | drain c' =>
    simp only [Task.run]
    split
    · split <;> rfl
    · rfl
  | frames c' timestamp =>
    simp only [Task.run]
    split
    · split
      · apply eventsOf_eq_nil
        intro t mem
        obtain ⟨id, _, rfl⟩ := List.mem_map.mp mem
        rfl
      · rfl
    · rfl
  | frame c' id timestamp =>
    simp only [Task.run]
    split
    · rw [eventsOf_cons, event?_frameCall]
      rfl
    · rfl
  | classObjects c' t =>
    simp only [Task.run]
    split
    · rfl
    · split <;> rfl
  | defineClass c' t =>
    simp only [Task.run]
    split
    · rfl
    · split <;> rfl
  | traceRoots r => cases r <;> rfl
  | letGo =>
    simp only [Task.run]
    split
    · simp [eventsOf_dropped, eventsOf_cons, Task.event?]
    · rfl
  | traceComplete r => cases r <;> rfl
  | setLevel | retire | endDrain | markAndSweep | conclude => rfl

end Tasks

theorem World.takeBatch_cases (w : World Obj τ) (c : ContextId) :
    (w.takeBatch c).rejections c = (w.rejections c).takePending ∧
        w.batch c = (w.rejections c).pending ∨
      (w.takeBatch c).rejections c = w.rejections c ∧ w.batch c = ⟨[], []⟩ := by
  have kept : ∀ x : Context, x.id = c →
      (if x.valid then { x with rejections := x.rejections.takePending } else x).id = c := by
    intro x here
    split <;> exact here
  rw [takeBatch, update_rejections w kept, if_pos rfl, batch, rejections]
  cases w.context? c with
  | none => exact Or.inr ⟨rfl, rfl⟩
  | some x =>
    cases valid : x.valid with
    | false => exact Or.inr ⟨by simp [valid], by simp [valid]⟩
    | true => exact Or.inl ⟨by simp [valid], by simp [valid]⟩

theorem World.takeBatch_other (w : World Obj τ) {c c' : ContextId} (other : c' ≠ c) :
    (w.takeBatch c').rejections c = w.rejections c := by
  rw [takeBatch, update_rejections, if_neg (Ne.symm other)]
  intro x here
  split <;> exact here

namespace Execution

variable [Facility τ] {E : Embedder Obj τ}

/-- The events that are still to be dispatched in a context, the next one first. -/
def waiting (x : Execution E) (c : ContextId) : List RejectionEvent :=
  x.frames.flatMap fun s => eventsOf c s.todo

def dispatch? (x : Execution E) (c : ContextId) : Option RejectionEvent :=
  match x.focus with
  | .bridge s => s.todo.head?.bind (Task.event? c)
  | _ => none

/-- The next step opens the episode: the tracking of its promise is accepted. -/
def Opens (x : Execution E) (c : ContextId) (e : Episode) : Prop :=
  ∃ reason, x.Performs (.trackUnhandled c e.promise reason) ∧
    (Command.perform x.world (.trackUnhandled c e.promise reason)).answer = true ∧
    (x.world.rejections c).episodes = e.number

/-- The next step ends the episode: a handler of its promise comes while the promise is tracked. -/
def Ends (x : Execution E) (c : ContextId) (e : Episode) : Prop :=
  ∃ reason, x.Performs (.trackHandled c e.promise reason) ∧
    ∃ r, (x.world.rejections c).find? e.promise = some r ∧ r.inEpisode = e

theorem waiting_of_code {x : Execution E} {k : Call Obj} {a : E.Activity}
    (at_code : x.focus = .code k a) (c : ContextId) :
    x.waiting c = x.below.flatMap fun s => eventsOf c s.todo := by
  rw [waiting, frames_of_code at_code]

theorem waiting_of_bridge {x : Execution E} {s : Suspended E} (at_bridge : x.focus = .bridge s)
    (c : ContextId) :
    x.waiting c = eventsOf c s.todo ++ x.below.flatMap fun s => eventsOf c s.todo := by
  rw [waiting, frames_of_bridge at_bridge, List.flatMap_cons]

theorem waiting_of_dispatch? {x : Execution E} {c : ContextId} {e : RejectionEvent}
    (dispatches : x.dispatch? c = some e) : ∃ rest, x.waiting c = e :: rest := by
  unfold dispatch? at dispatches
  split at dispatches
  · rename_i s at_bridge
    rw [waiting_of_bridge at_bridge]
    rcases next : s.todo with _ | ⟨t, todo⟩
    · rw [next] at dispatches
      exact nomatch dispatches
    · rw [next] at dispatches
      have is : t.event? c = some e := dispatches
      rw [eventsOf_cons, is]
      exact ⟨_, rfl⟩
  · exact nomatch dispatches

inductive Tracks (c : ContextId) (x y : Execution E) : Prop
  | quiet (rejections : (x.world.rejections c).Quiet (y.world.rejections c))
      (waiting : y.waiting c = x.waiting c)
  | opened {p : Handle} {reason : Value} (opens : x.Opens c ⟨p, (x.world.rejections c).episodes⟩)
      (untracked : (x.world.rejections c).isUnhandled p = false)
      (rejections : y.world.rejections c = (x.world.rejections c).trackUnhandled p reason)
      (waiting : y.waiting c = x.waiting c)
  | ended {p : Handle} {reason : Value} {r : Rejection} (ends : x.Ends c r.inEpisode)
      (found : (x.world.rejections c).find? p = some r)
      (rejections : y.world.rejections c = (x.world.rejections c).trackHandled p reason)
      (waiting : y.waiting c = x.waiting c)
  | taken (rejections : y.world.rejections c = (x.world.rejections c).takePending)
      (waiting : y.waiting c = (x.world.rejections c).pending.events ++ x.waiting c)
  | dispatched {e : RejectionEvent} (dispatches : x.dispatch? c = some e)
      (rejections : y.world.rejections c = x.world.rejections c)
      (waiting : x.waiting c = e :: y.waiting c)

theorem tracks_idle {x y : Execution E} {c : ContextId} (world : y.world = x.world)
    (waiting : y.waiting c = x.waiting c) : Tracks c x y := by
  apply Tracks.quiet
  · rw [world]
    exact .refl _
  · exact waiting

/-- A batch is taken ahead of the events that wait. -/
theorem tracks_takeBatch {x y : Execution E} {c c' : ContextId}
    (world : y.world = x.world.takeBatch c')
    (waiting : y.waiting c = eventsOf c ((x.world.batch c').tasks c' : List (Task Obj)) ++
      x.waiting c) : Tracks c x y := by
  by_cases same : c' = c
  · subst same
    rw [eventsOf_tasks] at waiting
    rcases x.world.takeBatch_cases c' with ⟨taken, batch⟩ | ⟨kept, none_taken⟩
    · apply Tracks.taken
      · rw [world, taken]
      · rw [waiting, batch]
    · apply Tracks.quiet
      · rw [world, kept]
        exact .refl _
      · rw [waiting, none_taken]
        rfl
  · rw [eventsOf_tasks_other c same] at waiting
    apply Tracks.quiet
    · rw [world, World.takeBatch_other _ same]
      exact .refl _
    · exact waiting

theorem tracks_perform {x y : Execution E} {command : Command Obj τ} (c : ContextId)
    (performs : x.Performs command) (world : y.world = (command.perform x.world).world)
    (waiting : y.waiting c = x.waiting c) : Tracks c x y := by
  by_cases other : ¬ command.OfTracking
  · apply Tracks.quiet
    · rw [world]
      exact command.perform_quiet other x.world c
    · exact waiting
  cases command with
  | trackUnhandled c' p reason =>
    rcases Command.trackUnhandled_cases x.world c' p reason c with
      ⟨kept, _⟩ | ⟨rfl, accepted, untracked, tracked⟩
    · rw [← world] at kept
      exact .quiet (kept ▸ .refl _) waiting
    · rw [← world] at tracked
      exact .opened ⟨reason, performs, accepted, rfl⟩ untracked tracked waiting
  | trackHandled c' p reason =>
    rcases Command.trackHandled_cases x.world c' p reason c with
      ⟨kept, _⟩ | ⟨rfl, r, found, tracked⟩
    · rw [← world] at kept
      exact .quiet (kept ▸ .refl _) waiting
    · have same : r.promise = p := Rejections.promise_of_find? found
      subst same
      rw [← world] at tracked
      exact .ended ⟨reason, performs, r, found, rfl⟩ found tracked waiting
  | _ => exact absurd id other

variable [Traced Obj]

theorem Stepped.tracks {x y : Execution E} (stepped : Stepped x y) (c : ContextId) :
    Tracks c x y := by
  cases stepped with
  | proceed at_code turn =>
    apply tracks_idle
    · rfl
    · rw [waiting_of_code at_code, waiting_of_code rfl]
  | command at_code turn =>
    apply tracks_perform c ⟨_, _, _, _, _, at_code, turn⟩ rfl
    rw [waiting_of_code at_code, waiting_of_code rfl]
  | @procedure _ _ _ _ p _ at_code turn =>
    by_cases other : p.OfTracking
    · cases p with
      | process c' =>
        apply tracks_takeBatch rfl
        rw [waiting_of_code at_code, waiting_of_bridge rfl]
        rfl
      | _ => exact other.elim
    · apply Tracks.quiet (Procedure.start_quiet other x.world c)
      rw [waiting_of_code at_code, waiting_of_bridge rfl, eventsOf_start c other, List.nil_append]
  | halt at_code turn alone =>
    apply tracks_idle
    · rfl
    · rw [waiting_of_code at_code, alone]
      rfl
  | @finish k _ _ _ r s below at_code turn caller =>
    apply Tracks.quiet (k.resume_quiet E.types x.world s.progress r c)
    rw [waiting_of_code at_code, caller, waiting_of_bridge rfl, eventsOf_append, eventsOf_resume,
      List.nil_append, List.flatMap_cons]
  | ended at_bridge done =>
    apply tracks_idle
    · rfl
    · rw [waiting_of_bridge at_bridge, done, waiting_of_code rfl]
      rfl
  | @called s k todo at_bridge next =>
    have waits : x.waiting c = ((Task.call k).event? c).toList ++ eventsOf c todo ++
        x.below.flatMap fun s => eventsOf c s.todo := by
      rw [waiting_of_bridge at_bridge, next, eventsOf_cons]
    cases is : (Task.call k).event? c with
    | none =>
      apply tracks_idle
      · rfl
      · rw [waits, is, waiting_of_code rfl]
        rfl
    | some e =>
      apply Tracks.dispatched (e := e)
      · simp [dispatch?, at_bridge, next, is]
      · rfl
      · rw [waits, is, waiting_of_code rfl]
        rfl
  | @worked s t todo at_bridge next no_call =>
    by_cases other : t.OfTracking
    · cases t with
      | flush c' =>
        apply tracks_takeBatch rfl
        rw [waiting_of_bridge at_bridge, next, waiting_of_bridge rfl, eventsOf_append]
        exact List.append_assoc ..
      | _ => exact other.elim
    · apply Tracks.quiet (Task.run_quiet other _ _ _ c)
      have no_event : t.event? c = none := by
        cases t with
        | call k => exact absurd rfl (no_call k)
        | _ => rfl
      rw [waiting_of_bridge at_bridge, next, waiting_of_bridge rfl, eventsOf_append,
        eventsOf_run c other no_call, eventsOf_cons, no_event]
      rfl

theorem run_tracks (x : Execution E) (c : ContextId) (n : Nat) :
    Tracks c (x.run n) (x.run (n + 1)) := by
  rcases run_succ_cases x n with same | stepped
  · rw [same]
    exact .quiet (.refl _) rfl
  · exact stepped.tracks c

theorem Performs.waiting_run_succ {x : Execution E} {n : Nat} {command : Command Obj τ}
    (performs : (x.run n).Performs command) (c : ContextId) :
    (x.run (n + 1)).waiting c = (x.run n).waiting c := by
  obtain ⟨k, a, state, notes, resume, at_code, turn⟩ := performs
  have stepped : (x.run n).step = some ((x.run n).move k a) := by rw [step, at_code]
  rw [run_succ_of_step stepped, waiting_of_code at_code]
  simp [move, turn, record, waiting, frames]

end Execution

end HostBridge
