import HostBridge.Proofs.Heap.Tracing
import HostBridge.Proofs.Rejections.Takings
import HostBridge.Proofs.Rooting
import HostBridge.Proofs.Timers.Firing
/-!
# Handles in use

A callback that runs and an event that waits for its dispatch are roots of no collection. Their
handles stay alive through what the context holds: the timer or the request that was called, the
rejections that are tracked. A sweep spares what was still held when the context was traced.
-/

namespace HostBridge

variable {Obj τ : Type}

/-- What is called when the entry fires, by the number of its acceptance. -/
def Holding.cause? : Holding → Option Cause
  | timer e => some (.timer e.key e.serial)
  | frame e => some (.frame e.key e.serial)
  | _ => none

theorem Rejection.names_of_mem {r : Rejection} {y : Handle} (mem : y ∈ handles r) :
    r.promise = y ∨ r.reason = .object y := by
  rcases List.mem_cons.mp mem with same | named
  · exact Or.inl same.symm
  · cases reason : r.reason with
    | object h =>
      rw [reason] at named
      exact Or.inr (congrArg Value.object (List.mem_singleton.mp named).symm)
    | _ =>
      rw [reason] at named
      exact nomatch named

namespace Execution

variable [Facility τ] [Traced Obj] {E : Embedder Obj τ} {x : Execution E} {c : ContextId}
  {entry : Holding} {l n : Nat} {visited : List Handle} {y : Handle}

def HeldByBridge (x : Execution E) (c : ContextId) (entry : Holding) (l : Nat) : Prop :=
  ∃ j, x.Traces j l .bridge ∧ (x.run j).world.Holds c entry

def HeldByContext (x : Execution E) (c : ContextId) (entry : Holding) (l : Nat) : Prop :=
  ∃ j, x.Traces j l (.context c) ∧ ∃ a, (x.run j).world.context? c = some a ∧ a.Holds entry

theorem HeldByBridge.reachable (held : x.HeldByBridge c entry l) (names : entry.Names y)
    (sweeps : (x.run l).Sweeps visited) : (x.run l).world.heap.Reachable visited y := by
  obtain ⟨j, traces, holds⟩ := held
  exact .root (traces.mem_visited sweeps.phase (World.mem_roots_of_holds holds names))

theorem HeldByContext.reachable (held : x.HeldByContext c entry l) (names : entry.Names y)
    (sweeps : (x.run l).Sweeps visited) : (x.run l).world.heap.Reachable visited y := by
  obtain ⟨j, traces, a, found, holds⟩ := held
  exact .root (traces.mem_visited sweeps.phase (World.mem_rootsOf_of_holds found holds names))

/-- Every sweep from `m` on and before `n` finds that something was held, or finds the handle
reachable from what was visited. -/
def SparedBy (x : Execution E) (held : Nat → Prop) (y : Handle) (m n : Nat) : Prop :=
  ∀ l, m ≤ l → l < n → ∀ visited, (x.run l).Sweeps visited →
    held l ∨ (x.run l).world.heap.Reachable visited y

theorem aliveThroughout_iff_sparedBy (fresh : x.Fresh) {m : Nat} {held : Nat → Prop}
    (reaches : ∀ l visited, held l → (x.run l).Sweeps visited →
      (x.run l).world.heap.Reachable visited y)
    (alive : (x.run m).world.heap.alive y = true) :
    x.AliveThroughout y m n ↔ x.SparedBy held y m n := by
  rw [aliveThroughout_iff fresh alive]
  refine forall₅_congr fun l _ _ visited sweeps => ?_
  constructor
  · exact Or.inr
  · rintro (here | reached)
    · exact reaches l visited here sweeps
    · exact reached

omit [Traced Obj] in
theorem Brings.of_event {k : Call Obj} {kind : EventKind} {r : Rejection}
    (brings : x.Brings (.call k)) (is : k = .event c kind r) :
    x.TakesBatch c ∧ (kind, r) ∈ (x.world.batch c).events := by
  cases brings with
  | @event c' _ _ takes taken =>
    obtain ⟨rfl, rfl, rfl⟩ := Call.event.inj is
    have events : eventsOf c' ((x.world.batch c').tasks c' : List (Task Obj)) =
        (x.world.batch c').events := eventsOf_tasks c' _
    refine ⟨takes, ?_⟩
    rw [← events]
    exact List.mem_filterMap.mpr ⟨_, taken, if_pos rfl⟩
  | frameCall =>
    rw [Task.frameCall] at is
    split at is <;> cases is
  | dropHook | rootSet | rootSetDone | exception | createClass | install | firstJob | nextJob
  | timerCall | typeError => cases is

theorem Rewrites.brings_at {x y : Execution E} (rewrites : Rewrites x y) {t : Task Obj}
    {above rest : List (Item Obj)} (here : y.stack = above ++ .task t :: rest) :
    (∃ above', x.stack = above' ++ .task t :: rest) ∨ x.Brings t := by
  obtain ⟨pushed, kept, stack, split, brought⟩ := rewrites.brings
  have below : (∃ above', kept = above' ++ .task t :: rest) →
      ∃ above', x.stack = above' ++ .task t :: rest := by
    rintro ⟨above', rfl⟩
    rcases split with ⟨same, _⟩ | ⟨i, top⟩
    · exact ⟨above', same.symm⟩
    · exact ⟨i :: above', top⟩
  rcases List.append_eq_append_iff.mp (here.symm.trans stack) with
    ⟨more, rfl, tail⟩ | ⟨more, rfl, tail⟩
  · rcases more with _ | ⟨i, more⟩
    · exact Or.inl (below ⟨[], tail.symm⟩)
    · obtain ⟨rfl, _⟩ := List.cons.inj tail
      rcases brought (.task t) (by simp) with ⟨_, same, brings⟩ | ⟨_, same, _⟩
      · exact Or.inr (Item.task.inj same ▸ brings)
      · exact nomatch same
  · exact Or.inl (below ⟨more, tail⟩)

/-- A task on the stack was brought there, and has been in its place since. -/
theorem Blank.brought_at (blank : x.Blank) {t : Task Obj} {above rest : List (Item Obj)}
    (here : (x.run n).stack = above ++ .task t :: rest) : ∃ m < n, (x.run m).Brings t ∧
      ∀ j, m < j → j ≤ n → ∃ above, (x.run j).stack = above ++ .task t :: rest := by
  induction n generalizing above with
  | zero =>
    exfalso
    rw [run_zero] at here
    exact blank.task_notMem (here ▸ List.mem_append_right above List.mem_cons_self)
  | succ n ih =>
    rcases (x.run_rewrites n).brings_at here with ⟨_, before⟩ | brings
    · obtain ⟨m, lt, brings, waits⟩ := ih before
      refine ⟨m, Nat.lt_succ_of_lt lt, brings, fun j after early => ?_⟩
      rcases Nat.le_succ_iff.mp early with earlier | rfl
      · exact waits j after earlier
      · exact ⟨above, here⟩
    · refine ⟨n, Nat.lt_succ_self n, brings, fun j after early => ?_⟩
      obtain rfl : j = n + 1 := by omega
      exact ⟨above, here⟩

omit [Traced Obj] in
theorem waiting_of_stack (c : ContextId) (runs : x.stack ≠ []) :
    x.waiting c = x.stack.filterMap (Item.event? c) := by
  have tasks : ∀ ts : List (Task Obj),
      (ts.map Item.task).filterMap (Item.event? c) = eventsOf c ts := fun ts =>
    List.filterMap_map
  have frames : ∀ below : List (Suspended E),
      (below.flatMap Suspended.items).filterMap (Item.event? c) =
        below.flatMap fun s => eventsOf c s.todo := by
    intro below
    induction below with
    | nil => rfl
    | cons s below ih =>
      rw [List.flatMap_cons, List.filterMap_append, Suspended.items, List.filterMap_append, tasks,
        List.filterMap_cons_none rfl, ih, List.flatMap_cons, List.filterMap_nil, List.append_nil]
  rcases at_focus : x.focus with _ | _ | s
  · exact absurd (by rw [stack, at_focus]) runs
  · rw [waiting_of_code at_focus, stack_of_code at_focus, List.filterMap_cons_none rfl, frames]
  · rw [waiting_of_bridge at_focus, stack_of_bridge at_focus, List.filterMap_append, tasks,
      List.filterMap_cons_none rfl, frames]

omit [Traced Obj] in
theorem atTask_of_dispatch? {kind : EventKind} {r : Rejection}
    (dispatches : x.dispatch? c = some (kind, r)) : x.AtTask (.call (.event c kind r)) := by
  rw [dispatch?_eq_stack] at dispatches
  obtain ⟨i, first, event⟩ := Option.bind_eq_some_iff.mp dispatches
  obtain ⟨rest, top⟩ := List.head?_eq_some_iff.mp first
  exact ⟨rest, by rw [top, Item.event?_eq_some.mp event]⟩

theorem Blank.taken (blank : x.Blank) {kind : EventKind} {r : Rejection}
    (dispatches : (x.run n).dispatch? c = some (kind, r)) : ∃ m < n, (x.run m).TakesBatch c ∧
      (kind, r) ∈ ((x.run m).world.batch c).events ∧
      ∀ j, m < j → j ≤ n → (x.run n).waiting c <:+ (x.run j).waiting c := by
  obtain ⟨rest, top⟩ := atTask_of_dispatch? dispatches
  have first : (x.run n).stack = [] ++ .task (.call (.event c kind r)) :: rest := top
  obtain ⟨m, lt, brings, waits⟩ := blank.brought_at first
  obtain ⟨takes, taken⟩ := brings.of_event rfl
  refine ⟨m, lt, takes, taken, fun j after before => ?_⟩
  obtain ⟨above, here⟩ := waits j after before
  rw [waiting_of_stack c (by simp [top]), waiting_of_stack c (by simp [here]), top, here,
    List.filterMap_append]
  exact List.suffix_append _ _

/-- The tracker held the rejection, as unhandled or as handled, when the bridge was traced for the
collection that traces at `l`. -/
def StillTracked (x : Execution E) (c : ContextId) (r : Rejection) (l : Nat) : Prop :=
  x.HeldByBridge c (.unhandled r.promise r.reason r.episode) l ∨
    x.HeldByBridge c (.handled r.promise r.reason r.episode) l

/-- Every event that is dispatched is one of a batch that was taken, and has been waiting since. If
the handles of its promise and its reason were alive then, they are alive until the dispatch exactly
if every sweep in between finds the rejection still tracked, or finds them reachable otherwise. -/
theorem dispatched_handles_alive_iff (fresh : x.Fresh) (blank : x.Blank) {kind : EventKind}
    {r : Rejection} (dispatches : (x.run n).dispatch? c = some (kind, r)) :
    ∃ m < n, (x.run m).TakesBatch c ∧ (kind, r) ∈ ((x.run m).world.batch c).events ∧
      (∀ j, m < j → j ≤ n → (x.run n).waiting c <:+ (x.run j).waiting c) ∧
      ∀ y ∈ handles r, (x.run m).world.heap.alive y = true →
        (x.AliveThroughout y m n ↔ x.SparedBy (x.StillTracked c r) y m n) := by
  obtain ⟨m, lt, takes, taken, waits⟩ := blank.taken dispatches
  refine ⟨m, lt, takes, taken, waits, fun y mem alive => ?_⟩
  have names := Rejection.names_of_mem mem
  apply aliveThroughout_iff_sparedBy fresh _ alive
  rintro l visited (held | held) sweeps
  · exact held.reachable names sweeps
  · exact held.reachable names sweeps

def collectInHandler : Call (List Handle) → List (Order (List Handle) Manual)
  | .event _ _ r => if r.promise = ⟨0, 0⟩ then [.procedure (.collect [.bridge])] else []
  | _ => []

def collectedInHandler (policy : RejectionPolicy) : Execution (plan collectInHandler) :=
  planned {} _ [.command (.createContext (some { policy })), .command (.allocate []),
    .command (.allocate []), .command (.trackUnhandled ⟨1⟩ ⟨0, 0⟩ .null),
    .command (.trackUnhandled ⟨1⟩ ⟨1, 0⟩ .null), .procedure (.process ⟨1⟩)]

def secondRejection : Rejection := ⟨⟨1, 0⟩, .null, true, 1⟩

/-- Under the policy that reports at every drain the second promise is still tracked. -/
theorem collected_in_handler_spares_tracked :
    (∃ m < 15, ((collectedInHandler .everyDrain).run m).TakesBatch ⟨1⟩ ∧
      (.unhandledRejection, secondRejection) ∈
        (((collectedInHandler .everyDrain).run m).world.batch ⟨1⟩).events ∧
      (∀ j, m < j → j ≤ 15 → ((collectedInHandler .everyDrain).run 15).waiting ⟨1⟩ <:+
        ((collectedInHandler .everyDrain).run j).waiting ⟨1⟩) ∧
      ∀ y ∈ handles secondRejection,
        ((collectedInHandler .everyDrain).run m).world.heap.alive y = true →
        ((collectedInHandler .everyDrain).AliveThroughout y m 15 ↔
          (collectedInHandler .everyDrain).SparedBy
            ((collectedInHandler .everyDrain).StillTracked ⟨1⟩ secondRejection) y m 15)) ∧
      ((collectedInHandler .everyDrain).run 15).world.heap.alive ⟨1, 0⟩ = true := by
  have dispatches : ((collectedInHandler .everyDrain).run 15).dispatch? ⟨1⟩ =
      some (.unhandledRejection, secondRejection) := by decide +kernel
  have blank : (collectedInHandler .everyDrain).Blank := ⟨rfl, rfl⟩
  constructor
  · exact dispatched_handles_alive_iff ⟨_, _, _, 1024, rfl, rfl⟩ blank dispatches
  · decide +kernel

/-- Under the policy that reports once it is dead when its event is dispatched. -/
theorem collected_in_handler_is_dispatched_dead : (collectedInHandler .once).Fresh ∧
    (∀ n, ((collectedInHandler .once).run n).Rooted) ∧
    ((collectedInHandler .once).run 5).TakesBatch ⟨1⟩ ∧
    ((collectedInHandler .once).run 21).dispatch? ⟨1⟩ =
      some (.unhandledRejection, secondRejection) ∧
    (∀ j ≤ 21, 5 < j → ((collectedInHandler .once).run 21).waiting ⟨1⟩ <:+
      ((collectedInHandler .once).run j).waiting ⟨1⟩) ∧
    ((collectedInHandler .once).run 5).world.heap.alive ⟨1, 0⟩ = true ∧
    ((collectedInHandler .once).run 21).world.heap.alive ⟨1, 0⟩ = false := by
  have rooted : ∀ n, ((collectedInHandler .once).run n).Rooted :=
    plan_rooted_run (m := 30) (by decide +kernel) (by decide +kernel)
  have requests : ((collectedInHandler .once).run 5).Requests .session (.process ⟨1⟩) fun _ => [] :=
    plan_requests rfl
  refine ⟨⟨_, _, _, 1024, rfl, rfl⟩, rooted, .processed requests rfl, ?_, ?_, ?_, ?_⟩
  · decide +kernel
  · decide +kernel
  · decide +kernel
  · decide +kernel

theorem Fires.holds {e : Entry TimerId Timer} {error : Option String}
    (fires : (x.run n).Fires c e error) :
    ∃ a, (x.run (n + 1)).world.context? c = some a ∧ a.Holds (.timer e) := by
  obtain ⟨_, _, _, _, world⟩ := fires.stack (x.run_rewrites n)
  obtain ⟨a, found, _, entry⟩ := World.ready?_eq_some.mp fires.ready
  rw [world, World.context?_update, found, Option.map_some, if_pos rfl]
  · exact ⟨_, rfl, List.mem_append_left _ (Registry.mem_of_entry entry)⟩
  · exact fun _ here => here

theorem RunsFrame.holds {e : Entry FrameId FrameRequest} {timestamp : Double}
    (runs : (x.run n).RunsFrame c e timestamp) :
    ∃ a, (x.run (n + 1)).world.context? c = some a ∧ a.Holds (.frame e) := by
  obtain ⟨rest, top⟩ := runs.next
  obtain ⟨p, _, world⟩ := (x.run_rewrites n).of_task top fun k same => nomatch same
  have active : ((x.run n).world.context? c).bind (·.frames.entry? e.key) = some e := runs.active
  obtain ⟨a, found, entry⟩ := Option.bind_eq_some_iff.mp active
  simp only [Task.run, active] at world
  rw [world, World.context?_update, found, Option.map_some, if_pos rfl]
  · exact ⟨_, rfl, List.mem_append_right _ (Registry.mem_abandoned_remove entry)⟩
  · exact fun _ here => here

/-- The context holds what is called back when the call begins. -/
theorem callback_held (blank : x.Blank) {cause : Cause} {f this : Value} {arguments : List Value}
    (calls : (x.run n).AtTask (.call (.function c cause f this arguments))) :
    ∃ entry a, (x.run n).world.context? c = some a ∧ a.Holds entry ∧ entry.cause? = some cause ∧
      ∀ y, f = .object y ∨ .object y ∈ arguments → entry.Names y := by
  obtain ⟨m, rfl, brings⟩ := callback_brought blank calls trivial
  rcases brings.callback trivial with ⟨c', e, fires, same⟩ | ⟨c', e, timestamp, runs, same⟩
  · obtain ⟨rfl, rfl, rfl, _, rfl⟩ := Call.function.inj same
    obtain ⟨a, found, holds⟩ := fires.holds
    exact ⟨.timer e, a, found, holds, rfl, fun y names => names⟩
  · rw [Task.frameCall] at same
    split at same
    · rename_i function callback
      obtain ⟨rfl, rfl, rfl, _, rfl⟩ := Call.function.inj same
      obtain ⟨a, found, holds⟩ := runs.holds
      refine ⟨.frame e, a, found, holds, rfl, fun y names => ?_⟩
      rcases names with rfl | argument
      · exact callback
      · cases List.mem_singleton.mp argument
    · cases same

/-- The bridge, or the context itself, held the entry when it was traced for the collection that
traces at `l`. -/
def StillHeld (x : Execution E) (c : ContextId) (entry : Holding) (l : Nat) : Prop :=
  x.HeldByBridge c entry l ∨ x.HeldByContext c entry l

/-- A callback that is called is that of a timer or a request that its context holds. If its
function and its arguments were alive at the call, they are alive until any later moment, such as
the return of the call, exactly if every sweep in between finds the timer or the request still held,
or finds them reachable otherwise. -/
theorem callback_handles_alive_iff (fresh : x.Fresh) (blank : x.Blank) {cause : Cause}
    {f this : Value} {arguments : List Value} {m : Nat}
    (calls : (x.run m).AtTask (.call (.function c cause f this arguments))) :
    ∃ entry a, (x.run m).world.context? c = some a ∧ a.Holds entry ∧ entry.cause? = some cause ∧
      ∀ y, f = .object y ∨ .object y ∈ arguments → (x.run m).world.heap.alive y = true →
        ∀ n, x.AliveThroughout y m n ↔ x.SparedBy (x.StillHeld c entry) y m n := by
  obtain ⟨entry, a, found, holds, of_cause, names⟩ := callback_held blank calls
  refine ⟨entry, a, found, holds, of_cause, fun y used alive n => ?_⟩
  apply aliveThroughout_iff_sparedBy fresh _ alive
  rintro l visited (held | held) sweeps
  · exact held.reachable (names y used) sweeps
  · exact held.reachable (names y used) sweeps

def clearAndCollect : Call (List Handle) → List (Order (List Handle) Manual)
  | .function c (.timer id _) .. =>
    [.command (.clearTimer c id), .procedure (.collect [.bridge]), .procedure (.collect [.bridge])]
  | _ => []

def collectedInCallback : Execution (plan clearAndCollect) :=
  planned {} _ [.command (.createContext none), .command (.allocate []),
    .command (.setTimer ⟨1⟩ .once (.object ⟨0, 0⟩) .zero []), .procedure (.fire ⟨1⟩ ⟨1⟩ none)]

def clearingCall : Call (List Handle) :=
  .function ⟨1⟩ (.timer ⟨1⟩ 0) (.object ⟨0, 0⟩) .undefined []

/-- The first collection spares the callback. -/
theorem collected_in_callback_spares_once :
    (∃ entry a, (collectedInCallback.run 5).world.context? ⟨1⟩ = some a ∧ a.Holds entry ∧
      entry.cause? = some (.timer ⟨1⟩ 0) ∧
      ∀ y, Value.object ⟨0, 0⟩ = .object y ∨ .object y ∈ ([] : List Value) →
        (collectedInCallback.run 5).world.heap.alive y = true →
        ∀ n, collectedInCallback.AliveThroughout y 5 n ↔
          collectedInCallback.SparedBy (collectedInCallback.StillHeld ⟨1⟩ entry) y 5 n) ∧
      (collectedInCallback.run 14).world.heap.alive ⟨0, 0⟩ = true :=
  ⟨callback_handles_alive_iff ⟨_, _, _, 1024, rfl, rfl⟩ ⟨rfl, rfl⟩ ⟨_, rfl⟩, by decide +kernel⟩

/-- The second collection reclaims it while it runs. -/
theorem collected_in_callback_dies : collectedInCallback.Fresh ∧
    (∀ n, (collectedInCallback.run n).Rooted) ∧
    (collectedInCallback.run 5).AtTask (.call clearingCall) ∧
    (collectedInCallback.run 5).Unfinished 19 ∧
    (collectedInCallback.run 5).world.heap.alive ⟨0, 0⟩ = true ∧
    (collectedInCallback.run 24).world.heap.alive ⟨0, 0⟩ = false := by
  have rooted : ∀ n, (collectedInCallback.run n).Rooted :=
    plan_rooted_run (m := 40) (by decide +kernel) (by decide +kernel)
  have unfinished : ∀ n ≤ 19, (collectedInCallback.run 5).stack.length ≤
      ((collectedInCallback.run 5).run n).stack.length := by decide +kernel
  refine ⟨⟨_, _, _, 1024, rfl, rfl⟩, rooted, ⟨_, rfl⟩, unfinished, ?_, ?_⟩
  · decide +kernel
  · decide +kernel

end Execution

end HostBridge
