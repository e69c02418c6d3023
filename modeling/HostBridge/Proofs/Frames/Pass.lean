import HostBridge.Proofs.Execution.Plan
import HostBridge.Proofs.Execution.Turns
import HostBridge.Proofs.Frames.Numbering
/-!
# Frame passes

A pass visits the ids that are active when it starts, in order. What callbacks, jobs and handlers do
in between decides which of them are still active at their turn; those are consumed, and only then
their callbacks are called.
-/

namespace HostBridge

variable {Obj τ : Type}

/-- The ids that a frame pass of the context visits if it starts now. -/
def World.pass (w : World Obj τ) (c : ContextId) : List FrameId :=
  if w.isValid c then (w.frames c).keys else []

def Task.OfFrame (t : Task Obj) : Prop := t.Trails ∨ ∃ k : Call Obj, t = .call k ∧ k.IsCallback

theorem Task.OfFrame.silent {t : Task Obj} (of_frame : t.OfFrame) : ¬ t.Counts := by
  rcases of_frame with trails | ⟨k, rfl, _⟩
  · cases t with
    | fire | frame | markAndSweep => cases trails
    | _ => exact id
  · exact id

section

variable [Traced Obj]

theorem Task.keeps_ofFrame : Execution.Keeps τ (@Task.OfFrame Obj) := by
  apply Task.keeps_trails.or
  · rintro k ⟨k', same, callback⟩ types w p r t mem
    obtain rfl := Task.call.inj same
    cases k with
    | function =>
      rcases r with thrown | _
      · rw [List.mem_singleton.mp mem]
        trivial
      · cases mem
    | native => cases mem
    | session | job | report | typeError | event | createClass | install | traceRoots
    | traceComplete | drop => cases callback
  · rintro t ⟨k, rfl, _⟩ no_call
    exact absurd rfl (no_call k)

variable {w : World Obj τ} {c : ContextId} {e : Entry FrameId FrameRequest} {id : FrameId}
  {timestamp : Double}

theorem Task.run_frames (env : Surroundings) (w : World Obj τ) (p : Progress) (c : ContextId)
    (timestamp : Double) : Task.run env w p (.frames c timestamp) =
      ⟨w, p, (w.pass c).map (.frame c · timestamp), []⟩ := by
  cases found : w.context? c with
  | none => simp [run, World.pass, World.isValid, found]
  | some a =>
    cases valid : a.valid <;>
      simp [run, World.pass, World.isValid, World.frames_of_context? found, found, valid]

theorem Task.run_frame (active : w.request? c e.key = some e) (env : Surroundings) (p : Progress)
    (timestamp : Double) : (Task.run env w p (.frame c e.key timestamp)).first =
        [.call (frameCall c e timestamp), .drain c] ∧
      (Task.run env w p (.frame c e.key timestamp)).progress = p.tick := by
  have found : (w.context? c).bind (·.frames.entry? e.key) = some e := active
  simp only [run, found, and_self]

theorem Task.run_frame_of_none (inactive : w.request? c id = none) (env : Surroundings)
    (p : Progress) : Task.run env w p (.frame c id timestamp) = ⟨w, p, [], []⟩ := by
  have absent : (w.context? c).bind (·.frames.entry? id) = none := inactive
  simp only [run, absent]

end

variable [Facility τ] {E : Embedder Obj τ}

def Event.frameAnswer? : Event E → Option Nat
  | ended (.frames ..) answer => some answer
  | _ => none

namespace Execution

variable [Traced Obj]

/-- The ids have their turn in a pass, the first after `m` steps; after `n` steps the last has had
it. The requests that are still active are run, each as soon as it is consumed, and after each of
them a drain is asked for once. -/
inductive Visits (x : Execution E) (c : ContextId) (timestamp : Double) :
    Nat → List FrameId → List (Entry FrameId FrameRequest) → Nat → Prop
  | nil (n : Nat) : Visits x c timestamp n [] [] n
  | skipped {m n : Nat} {id : FrameId} {ids : List FrameId}
      {fired : List (Entry FrameId FrameRequest)} (next : (x.run m).AtTask (.frame c id timestamp))
      (inactive : (x.run m).world.request? c id = none)
      (later : Visits x c timestamp (m + 1) ids fired n) :
      Visits x c timestamp m (id :: ids) fired n
  | fired {m k n : Nat} {e : Entry FrameId FrameRequest} {ids : List FrameId}
      {fired : List (Entry FrameId FrameRequest)} (runs : (x.run m).RunsFrame c e timestamp)
      (consumed : (x.run (m + 1)).world.request? c e.key = none)
      (calls : x.InTurn (m + 1) [.call (Task.frameCall c e timestamp), .drain c] k)
      (later : Visits x c timestamp k ids fired n) :
      Visits x c timestamp m (e.key :: ids) (e :: fired) n

variable {x : Execution E} {c : ContextId} {timestamp : Double} {e : Entry FrameId FrameRequest}
  {id : FrameId} {ids : List FrameId} {fired : List (Entry FrameId FrameRequest)} {j l m n : Nat}

theorem Visits.le (visits : x.Visits c timestamp m ids fired n) : m ≤ n := by
  induction visits with
  | nil => exact Nat.le_refl _
  | skipped _ _ _ ih => omega
  | fired _ _ calls _ ih =>
    have before := calls.le
    omega

theorem FinishesAt.skips (next : (x.run m).AtTask (.frame c id timestamp))
    (inactive : (x.run m).world.request? c id = none) (finishes : (x.run m).FinishesAt j) :
    j = 1 := by
  obtain ⟨rest, top⟩ := next
  obtain ⟨p, stack, _⟩ := (x.run_rewrites m).of_task top fun k same => nomatch same
  rw [Task.run_frame_of_none inactive] at stack
  rw [finishes.unique ((InTurn.nil (m + 1)).finishesAt top stack), Nat.add_sub_cancel_left]

theorem RunsFrame.calls (runs : (x.run m).RunsFrame c e timestamp)
    (finishes : (x.run m).FinishesAt j) :
    x.InTurn (m + 1) [.call (Task.frameCall c e timestamp), .drain c] (m + j) := by
  obtain ⟨rest, top, after⟩ := runs.stack (x.run_rewrites m)
  exact finishes.inTurn top after

theorem RunsFrame.consumed (blank : x.Blank) (runs : (x.run m).RunsFrame c e timestamp) :
    (x.run (m + 1)).world.request? c e.key = none := by
  have sound := frames_sound blank c m
  rw [World.request?_eq, runs.frames_consumed, sound.entry?_remove, if_pos rfl]

theorem InTurn.visits (blank : x.Blank) (turns : x.InTurn m (ids.map (.frame c · timestamp)) n) :
    ∃ fired, x.Visits c timestamp m ids fired n := by
  induction ids generalizing m with
  | nil =>
    cases turns with
    | nil => exact ⟨[], .nil _⟩
  | cons id ids ih =>
    cases turns with
    | cons next finishes later =>
      obtain ⟨fired, visits⟩ := ih later
      cases found : (x.run m).world.request? c id with
      | none =>
        obtain rfl := finishes.skips next found
        exact ⟨fired, .skipped next found visits⟩
      | some e =>
        obtain ⟨_, rfl⟩ := active_of_request? found
        have runs : (x.run m).RunsFrame c e timestamp := ⟨next, found⟩
        exact ⟨e :: fired, .fired runs (runs.consumed blank) (runs.calls finishes) visits⟩

theorem Visits.keys_sublist (visits : x.Visits c timestamp m ids fired n) :
    (fired.map Entry.key).Sublist ids := by
  induction visits with
  | nil => exact List.nil_sublist _
  | skipped _ _ _ ih => exact ih.cons _
  | fired _ _ _ _ ih => exact ih.cons_cons _

theorem Visits.inactive (no_revival : ¬ x.Revives c m n)
    (visits : x.Visits c timestamp l ids fired n) (after : m ≤ l)
    (started : ∀ id ∈ ids, id ∈ ((x.run m).world.frames c).keys) :
    ∀ id ∈ ids, (x.run n).world.request? c id = none := by
  induction visits with
  | nil =>
    intro id mem
    cases mem
  | skipped next inactive later ih =>
    obtain ⟨first, others⟩ := List.forall_mem_cons.mp started
    have le := later.le
    refine List.forall_mem_cons.mpr ⟨?_, ih no_revival (by omega) others⟩
    exact inactive_of_not_revives no_revival first after inactive (by omega) (Nat.le_refl _)
  | fired runs consumed calls later ih =>
    obtain ⟨first, others⟩ := List.forall_mem_cons.mp started
    have before := calls.le
    have le := later.le
    refine List.forall_mem_cons.mpr ⟨?_, ih no_revival (by omega) others⟩
    exact inactive_of_not_revives no_revival first (by omega) consumed (by omega) (Nat.le_refl _)

/-- Unless an id becomes active again, the requests that are run are among those that were active at
the start, in their order. -/
theorem Visits.sublist (blank : x.Blank) (no_revival : ¬ x.Revives c m n)
    {es : List (Entry FrameId FrameRequest)}
    (visits : x.Visits c timestamp l (es.map Entry.key) fired n) (after : m ≤ l)
    (started : es.Sublist ((x.run m).world.frames c).active) : fired.Sublist es := by
  generalize split : es.map Entry.key = ids at visits
  induction visits generalizing es with
  | nil => exact List.nil_sublist _
  | skipped next inactive later ih =>
    obtain ⟨d, es, rfl, rfl, rfl⟩ := List.map_eq_cons_iff.mp split
    exact (ih no_revival (by omega) ((List.sublist_cons_self d es).trans started) rfl).cons d
  | @fired l k n e ids fired runs consumed calls later ih =>
    obtain ⟨d, es, rfl, same, rfl⟩ := List.map_eq_cons_iff.mp split
    have before := calls.le
    have le := later.le
    have was_active : d ∈ ((x.run m).world.frames c).active := started.subset List.mem_cons_self
    have mem : e.key ∈ ((x.run m).world.frames c).keys := List.mem_map.mpr ⟨d, was_active, same⟩
    have old := active_of_not_revives blank no_revival mem after (by omega) runs.active
    have there := request?_of_active blank old
    rw [← same, request?_of_active blank was_active] at there
    obtain rfl : d = e := Option.some.inj there
    exact (ih no_revival (by omega) ((List.sublist_cons_self d es).trans started) rfl).cons_cons d

theorem Visits.resumes {s : Suspended E} {todo : List (Task Obj)}
    (visits : x.Visits c timestamp m ids fired n) (at_bridge : (x.run m).focus = .bridge s)
    (next : s.todo = ids.map (.frame c · timestamp) ++ todo) :
    ∃ p, (x.run n).focus = .bridge { s with todo, progress := p } ∧
      (x.run n).below = (x.run m).below ∧ p.count = s.progress.count + fired.length := by
  induction visits generalizing s with
  | nil =>
    subst next
    exact ⟨s.progress, at_bridge, rfl, rfl⟩
  | skipped _ inactive _ ih =>
    obtain ⟨⟨_, here, below⟩, _⟩ := work_goesOn at_bridge next fun k same => nomatch same
    rw [← run_add] at here below
    rw [Task.run_frame_of_none inactive] at here
    obtain ⟨p, there, below', count⟩ := ih here rfl
    exact ⟨p, there, below'.trans below, count⟩
  | @fired m k n e ids fired runs _ calls _ ih =>
    obtain ⟨⟨_, here, below⟩, _⟩ := work_goesOn at_bridge next fun k same => nomatch same
    rw [← run_add] at here below
    obtain ⟨first, ticked⟩ := Task.run_frame runs.active
      ⟨E.types, E.alive (x.run m).state (x.run m).world.heap⟩ s.progress timestamp
    rw [first, ticked] at here
    have of_frame : ∀ t ∈ ([.call (Task.frameCall c e timestamp), .drain c] : List (Task Obj)),
        t.OfFrame := by
      intro t mem
      simp only [List.mem_cons, List.not_mem_nil, or_false] at mem
      rcases mem with rfl | rfl
      · exact Or.inr ⟨_, rfl, Task.frameCall_isCallback c e timestamp⟩
      · exact Or.inl trivial
    obtain ⟨p, there, below', count⟩ :=
      calls.resumes Task.keeps_ofFrame (fun _ => Task.OfFrame.silent) of_frame here rfl
    obtain ⟨q, last, below'', count'⟩ := ih there rfl
    refine ⟨q, last, below''.trans (below'.trans below), ?_⟩
    rw [count', count, List.length_cons]
    simp only [Progress.tick]
    omega

structure Passes (x : Execution E) (m : Nat) (c : ContextId) (timestamp : Double) : Prop where
  ordered : ((x.run m).world.frames c).Ordered
  all : (x.run m).world.pass c = ((x.run m).world.frames c).keys ∨
    (x.run m).world.isValid c = false ∧ x.Registers c m
  proceeds : ∀ n, m < n → ∃ done left fired k, (x.run m).world.pass c = done ++ left ∧
    x.Visits c timestamp (m + 1) done fired k ∧ k ≤ n ∧
    ∀ id ∈ left.head?, (x.run k).AtTask (.frame c id timestamp) ∧ (x.run k).Unfinished (n - k)
  lasts : ∀ e ∈ ((x.run m).world.frames c).active, ∀ n, m ≤ n →
    (e ∈ ((x.run n).world.frames c).active ↔ ∀ l, m ≤ l → l < n → ¬ (x.run l).Drops c e)
  fires : ∀ done left fired k, (x.run m).world.pass c = done ++ left →
    x.Visits c timestamp (m + 1) done fired k → (fired.map Entry.key).Sublist done ∧
      (¬ x.Revives c m k → fired.Sublist ((x.run m).world.frames c).active ∧
        ∀ id ∈ done, (x.run k).world.request? c id = none)
  counts : ∀ s todo, (x.run m).focus = .bridge s → s.todo = .frames c timestamp :: todo →
    ∀ fired n, x.Visits c timestamp (m + 1) ((x.run m).world.pass c) fired n →
    ∃ p, (x.run n).focus = .bridge { s with todo, progress := p } ∧
      (x.run n).below = (x.run m).below ∧ p.count = s.progress.count + fired.length

theorem pass_eq_keys (blank : x.Blank) (m : Nat) (c : ContextId) :
    (x.run m).world.pass c = ((x.run m).world.frames c).keys ∨
      (x.run m).world.isValid c = false ∧ x.Registers c m := by
  cases valid : (x.run m).world.isValid c with
  | true => exact Or.inl (if_pos valid)
  | false =>
    rcases active : ((x.run m).world.frames c).active with _ | ⟨e, es⟩
    · left
      rw [World.pass, valid, Registry.keys, active]
      rfl
    · right
      refine ⟨rfl, ?_⟩
      cases found : (x.run m).world.context? c with
      | none =>
        rw [World.frames, found] at active
        cases active
      | some a =>
        rw [World.isValid, found] at valid
        rw [World.frames_of_context? found] at active
        obtain ⟨l, lt, _, performs⟩ :=
          registered_of_disposed blank found valid (active ▸ List.mem_cons_self (l := es))
        exact ⟨l, lt, _, _, performs⟩

omit [Facility τ] [Traced Obj] in
theorem pass_append {w : World Obj τ} {done left : List FrameId} (split : w.pass c = done ++ left) :
    ∃ es : List (Entry FrameId FrameRequest), done = es.map Entry.key ∧
      es.Sublist (w.frames c).active := by
  rw [World.pass] at split
  split at split
  · obtain ⟨es, others, active, rfl, _⟩ := List.map_eq_append_iff.mp split
    exact ⟨es, rfl, active ▸ List.sublist_append_left es others⟩
  · obtain ⟨rfl, _⟩ := List.append_eq_nil_iff.mp split.symm
    exact ⟨[], rfl, List.nil_sublist _⟩

theorem AtTask.passes (blank : x.Blank) (next : (x.run m).AtTask (.frames c timestamp)) :
    x.Passes m c timestamp := by
  obtain ⟨rest, top⟩ := next
  obtain ⟨p, stack, _⟩ := (x.run_rewrites m).of_task top fun k same => nomatch same
  rw [Task.run_frames] at stack
  refine ⟨(x.frames_evolve c).ordered (blank.frames_empty c) m, pass_eq_keys blank m c, ?_, ?_, ?_,
    ?_⟩
  · intro n after
    obtain ⟨done, left, k, split, turns, le, goes_on⟩ := exists_inTurn stack after
    obtain ⟨done, left, parts, rfl, rfl⟩ := List.map_eq_append_iff.mp split
    obtain ⟨fired, visits⟩ := turns.visits blank
    refine ⟨done, left, fired, k, parts, visits, le, ?_⟩
    intro id mem
    apply goes_on
    rw [List.head?_map, Option.mem_def.mp mem]
    rfl
  · exact fun e active n le => active_iff_not_dropped blank active le
  · intro done left fired k split visits
    refine ⟨visits.keys_sublist, ?_⟩
    intro no_revival
    obtain ⟨es, rfl, started⟩ := pass_append split
    constructor
    · exact (visits.sublist blank no_revival (Nat.le_succ m) started).trans started
    · exact visits.inactive no_revival (Nat.le_succ m) fun id mem => (started.map _).subset mem
  · intro s todo at_bridge first fired n visits
    obtain ⟨⟨_, here, below⟩, _⟩ := work_goesOn at_bridge first fun k same => nomatch same
    rw [← run_add] at here below
    rw [Task.run_frames] at here
    obtain ⟨q, there, below', count⟩ := visits.resumes here rfl
    exact ⟨q, there, below'.trans below, count⟩

theorem Requests.passes {k : Call Obj} {resume : Nat → E.Activity}
    (requests : (x.run m).Requests k (.frames c timestamp) resume) :
    (x.run (m + 1)).focus = .bridge ⟨k, .frames c timestamp, resume, [.frames c timestamp], {}⟩ ∧
      (x.run (m + 1)).below = (x.run m).below ∧ (x.run (m + 1)).world = (x.run m).world := by
  have begun := requests.run_one
  rwa [← run_add] at begun

/-- Every pass takes its course, and the one that code asks for answers how many requests it has run
itself. An id becomes active again only if the embedder registers a request of its own, or if the
context runs out of ids. No callback is called twice in a whole run. -/
theorem passes_run (blank : x.Blank) :
    (∀ m c timestamp, (x.run m).AtTask (.frames c timestamp) → x.Passes m c timestamp) ∧
    (∀ m k c timestamp resume, (x.run m).Requests k (.frames c timestamp) resume →
      (x.run (m + 1)).AtTask (.frames c timestamp) ∧ (x.run (m + 1)).world = (x.run m).world ∧
      ∀ fired n, x.Visits c timestamp (m + 2) ((x.run m).world.pass c) fired n →
        (x.run (n + 1)).focus = .code k (resume fired.length) ∧
        (x.run (n + 1)).below = (x.run m).below) ∧
    (∀ c m n, x.Revives c m n → x.Registers c n ∨ 2 ^ 32 - 1 ≤ (x.run n).requested c) ∧
    ∀ m n k k' acceptance, (x.run m).AtTask (.call k) → (x.run n).AtTask (.call k') →
      k.frame? = some acceptance → k'.frame? = some acceptance → m = n := by
  refine ⟨fun m c timestamp => AtTask.passes blank, ?_, fun c m n => Revives.registers_or_many blank,
    fun m n k k' acceptance => frame_called_once blank⟩
  intro m k c timestamp resume requests
  obtain ⟨at_bridge, below, world⟩ := requests.passes
  have next : (x.run (m + 1)).AtTask (.frames c timestamp) := atTask_of_bridge at_bridge rfl
  refine ⟨next, world, ?_⟩
  intro fired n visits
  rw [← world] at visits
  obtain ⟨p, here, below', count⟩ :=
    (next.passes blank).counts _ [] at_bridge rfl fired n visits
  obtain ⟨_, focus, below'', _⟩ := done_endsAt here rfl
  rw [← run_add] at focus below''
  refine ⟨?_, below''.trans (below'.trans below)⟩
  rw [focus, Procedure.answer, count, Nat.zero_add]

def plansRegistering {body : Call Obj → List (Order Obj τ)} (x : Execution (plan body)) : Bool :=
  match x.order? with
  | some (.command (.registerFrame ..)) => true
  | _ => false

theorem no_registering_of_plan {body : Call Obj → List (Order Obj τ)} {x : Execution (plan body)}
    (none_planned : ∀ m < n, (x.run m).plansRegistering = false) : ¬ x.Registers c n := by
  rintro ⟨l, lt, id, q, performs⟩
  have planned := none_planned l lt
  rw [plansRegistering, performs.order?] at planned
  cases planned

/-- The first callback cancels the second request, makes a fourth and begins a pass of its own; the
fourth callback makes a fifth request. -/
def passInFrame : Call (List Handle) → List (Order (List Handle) Manual)
  | .function c (.frame ⟨1⟩ _) .. =>
    [.command (.cancelFrame c ⟨2⟩), .command (.requestFrame c (.native 0)),
      .procedure (.frames c ⟨1⟩)]
  | .native c (.frame ⟨4⟩ _) .. => [.command (.requestFrame c (.native 1))]
  | _ => []

def nestedPass : Execution (plan passInFrame) :=
  planned {} _ [.command (.createContext none), .command (.requestFrame ⟨1⟩ (.script .null)),
    .command (.requestFrame ⟨1⟩ (.script .null)), .command (.requestFrame ⟨1⟩ (.script .null)),
    .procedure (.frames ⟨1⟩ ⟨0⟩)]

/-- The nested pass runs the third and the fourth request, the outer one the first only. -/
theorem nested_pass_takes_course :
    nestedPass.Passes 5 ⟨1⟩ ⟨0⟩ ∧ nestedPass.Passes 11 ⟨1⟩ ⟨1⟩ ∧ ¬ nestedPass.Revives ⟨1⟩ 5 40 ∧
      (nestedPass.run 40).history.filterMap Event.frameAnswer? = [1, 2] ∧
      ((nestedPass.run 40).world.frames ⟨1⟩).keys = [⟨5⟩] := by
  have ⟨passes, _, revived, _⟩ := passes_run (x := nestedPass) ⟨rfl, rfl⟩
  refine ⟨passes 5 _ _ ⟨_, rfl⟩, passes 11 _ _ ⟨_, rfl⟩, ?_, by decide +kernel, by decide +kernel⟩
  intro revives
  rcases revived _ _ _ revives with own | many
  · exact no_registering_of_plan (by decide +kernel) own
  · exact absurd many (by decide +kernel)

def disposedPass :
    Execution (plan fun _ : Call (List Handle) => ([] : List (Order (List Handle) Manual))) :=
  planned {} _ [.command (.createContext none), .command (.dispose ⟨1⟩),
    .command (.registerFrame ⟨1⟩ ⟨7⟩ ⟨⟨7⟩, ⟨1⟩, .native 0⟩), .procedure (.frames ⟨1⟩ ⟨0⟩)]

/-- The pass of a disposed context runs nothing and leaves its request active. -/
theorem disposed_pass_runs_nothing :
    (disposedPass.run 4).AtTask (.frames ⟨1⟩ ⟨0⟩) ∧
      ((disposedPass.run 4).world.frames ⟨1⟩).keys = [⟨7⟩] ∧
      (disposedPass.run 6).history.filterMap Event.frameAnswer? = [0] ∧
      ((disposedPass.run 6).world.frames ⟨1⟩).keys = [⟨7⟩] :=
  ⟨⟨_, rfl⟩, by decide +kernel, by decide +kernel, by decide +kernel⟩

end Execution

end HostBridge
