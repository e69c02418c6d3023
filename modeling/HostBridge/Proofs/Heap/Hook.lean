import HostBridge.Proofs.Execution.Extent
import HostBridge.Proofs.Heap.Change
/-!
# Hooks

A collection calls root sets and dropped objects of the embedder. A call that spares the heap may
still use the bridge: it runs timers, frames and jobs, and their procedures work on the heap no more
than it does. When it returns, all that happened to the heap is what was reported to the collector.
-/

namespace HostBridge

variable {Obj τ : Type} [Facility τ] {E : Embedder Obj τ}

omit [Facility τ] in
/-- What a root set reports now; one of the embedder reports when its call returns. -/
def RootSet.reported (w : World Obj τ) : RootSet → List Handle
  | bridge => w.roots
  | context c => w.rootsOf c
  | handles xs => xs
  | external _ => []

omit [Facility τ] in
theorem Call.resume_ofCollection {k : Call Obj} (hook : k.OfCollection)
    (types : TypeId → TypeDescriptor) (w : World Obj τ) (p : Progress) (r : k.Reply) :
    (k.resume types w p r).first = [] ∧ (k.resume types w p r).progress = p := by
  cases k with
  | traceRoots | traceComplete | drop => exact ⟨rfl, rfl⟩
  | _ => exact absurd hook (fun h => h)

namespace Heap

def tracing (h : Heap Obj) : Bool :=
  match h.phase with
  | .tracing _ => true
  | _ => false

omit [Facility τ] in
theorem visitRoots_of_not_tracing {h : Heap Obj} (deaf : h.tracing = false) (xs : List Handle) :
    h.visitRoots xs = h := by
  unfold visitRoots
  split
  · rename_i phase
    simp [tracing, phase] at deaf
  · rfl

end Heap

namespace Execution

def offered (x : Execution E) : List Handle :=
  match x.focus with
  | .code k a =>
    match (E.next k x.world x.state a).move with
    | .finish r => k.reported r
    | _ => []
  | .bridge s =>
    match s.todo with
    | .traceRoots r :: _ => r.reported x.world
    | _ => []
  | .halted => []

def reported (x : Execution E) : List Handle := if x.world.heap.tracing then x.offered else []

def SparesHeap (x : Execution E) : Prop :=
  (∀ c, x.Performs c → ¬ c.OfHeap) ∧ ∀ k p resume, x.Requests k p resume → ¬ p.OfHeap

theorem offered_of_other {x : Execution E} {s : Suspended E} {t : Task Obj} {todo : List (Task Obj)}
    (at_bridge : x.focus = .bridge s) (next : s.todo = t :: todo) (other : ¬ t.OfHeap) :
    x.offered = [] := by
  simp only [offered, at_bridge, next]
  cases t with
  | traceRoots => exact absurd trivial other
  | _ => rfl

theorem visitRoots_reported (x : Execution E) :
    x.world.heap.visitRoots x.reported = x.world.heap.visitRoots x.offered := by
  unfold reported
  split
  · rfl
  · rename_i deaf
    rw [Heap.visitRoots_of_not_tracing (Bool.eq_false_iff.mpr deaf),
      Heap.visitRoots_of_not_tracing (Bool.eq_false_iff.mpr deaf)]

variable [Traced Obj]

/-- What is reported to the collector in the first `n` steps. -/
def visits (x : Execution E) (n : Nat) : List Handle :=
  (List.range n).flatMap fun m => (x.run m).reported

theorem visits_one (x : Execution E) : x.visits 1 = x.reported := by
  simp [visits]

theorem visits_succ (x : Execution E) (n : Nat) :
    x.visits (n + 1) = x.visits n ++ (x.run n).reported := by
  simp [visits, List.range_succ]

theorem visits_add (x : Execution E) (m n : Nat) :
    x.visits (m + n) = x.visits m ++ (x.run m).visits n := by
  induction n with
  | zero => simp [visits]
  | succ n ih =>
    rw [← Nat.add_assoc, visits_succ, ih, visits_succ, run_add, List.append_assoc]

/-- The call `k`, which was made with `below` on the stack, is going on. `inner` are the procedures
it has asked for and that have not ended; none of them works on the heap. -/
structure Serving (k : Call Obj) (below inner : List (Suspended E)) (y : Execution E) : Prop where
  frames : y.frames = inner ++ below
  here : inner = [] → ∃ a, y.focus = .code k a
  outermost : ∀ t, inner.getLast? = some t → t.k = k
  spares : ∀ t ∈ inner, ∀ task ∈ t.todo, ¬ task.OfHeap

def Returned (k : Call Obj) (below : List (Suspended E)) (y : Execution E) : Prop :=
  ∃ (w : World Obj τ) (r : k.Reply) (s : Suspended E) (rest : List (Suspended E)),
    below = s :: rest ∧ y.below = rest ∧
      y.focus = .bridge { s with
        todo := (k.resume E.types w s.progress r).first ++ s.todo
        progress := (k.resume E.types w s.progress r).progress }

namespace Serving

variable {k : Call Obj} {below inner : List (Suspended E)} {y y' : Execution E}

omit [Traced Obj] in
theorem bridge (serving : y.Serving k below inner) {s : Suspended E}
    (at_bridge : y.focus = .bridge s) :
    ∃ outer, inner = s :: outer ∧ y.below = outer ++ below := by
  have frames := serving.frames
  rw [frames_of_bridge at_bridge] at frames
  cases inner with
  | nil =>
    obtain ⟨a, at_code⟩ := serving.here rfl
    rw [at_code] at at_bridge
    exact absurd at_bridge (by simp)
  | cons t outer =>
    obtain ⟨rfl, same⟩ := List.cons.inj frames
    exact ⟨outer, rfl, same⟩

omit [Traced Obj] in
theorem advance {s : Suspended E} {outer : List (Suspended E)}
    (serving : y.Serving k below (s :: outer)) (s' : Suspended E)
    (frames : y'.frames = s' :: outer ++ below)
    (same : s'.k = s.k) (spares : ∀ task ∈ s'.todo, ¬ task.OfHeap) :
    y'.Serving k below (s' :: outer) := by
  refine ⟨frames, fun nothing => absurd nothing (by simp), ?_, ?_⟩
  · intro t last
    cases outer with
    | nil =>
      obtain rfl := Option.some.inj last
      exact same.trans (serving.outermost s rfl)
    | cons u outer => exact serving.outermost t (by simpa using last)
  · intro t member
    rcases List.mem_cons.mp member with rfl | later
    · exact spares
    · exact serving.spares t (by simp [later])

omit [Traced Obj] in
theorem code (serving : y.Serving k below inner) {k' : Call Obj} {a a' : E.Activity}
    (at_code : y.focus = .code k' a) (still : y'.focus = .code k' a') (same : y'.below = y.below) :
    y'.Serving k below inner := by
  constructor
  · rw [frames_of_code still, same, ← frames_of_code at_code, serving.frames]
  · intro nothing
    obtain ⟨a, here⟩ := serving.here nothing
    obtain ⟨rfl, _⟩ := Focus.code.inj (at_code.symm.trans here)
    exact ⟨a', still⟩
  · exact serving.outermost
  · exact serving.spares

omit [Traced Obj] in
theorem enter (serving : y.Serving k below inner) {s : Suspended E} {a : E.Activity}
    (at_code : y.focus = .code s.k a) (entered : y'.focus = .bridge s) (same : y'.below = y.below)
    (spares : ∀ task ∈ s.todo, ¬ task.OfHeap) : y'.Serving k below (s :: inner) := by
  constructor
  · rw [frames_of_bridge entered, same, List.cons_append, ← serving.frames, frames_of_code at_code]
  · intro nothing
    exact absurd nothing (by simp)
  · intro t last
    cases inner with
    | nil =>
      obtain rfl := Option.some.inj last
      obtain ⟨a, here⟩ := serving.here rfl
      exact (Focus.code.inj (at_code.symm.trans here)).1
    | cons u outer => exact serving.outermost t (by simpa using last)
  · intro t member
    rcases List.mem_cons.mp member with rfl | later
    · exact spares
    · exact serving.spares t later

omit [Traced Obj] in
theorem leave {s : Suspended E} {outer : List (Suspended E)} {a : E.Activity}
    (serving : y.Serving k below (s :: outer)) (left : y'.focus = .code s.k a)
    (same : y'.below = outer ++ below) : y'.Serving k below outer := by
  constructor
  · rw [frames_of_code left, same]
  · intro nothing
    subst nothing
    exact ⟨a, by rw [left, serving.outermost s rfl]⟩
  · intro t last
    cases outer with
    | nil => exact absurd last (by simp)
    | cons u outer => exact serving.outermost t (by simpa using last)
  · intro t member
    exact serving.spares t (List.mem_cons_of_mem s member)

theorem step (serving : y.Serving k below inner) (called : below ≠ []) (spares : y.SparesHeap)
    (stepped : Stepped y y') :
    y'.world.heap = y.world.heap.visitRoots y.reported ∧
      ((∃ inner', y'.Serving k below inner') ∨ y'.Returned k below) := by
  rw [visitRoots_reported]
  cases stepped with
  | proceed at_code turn =>
    constructor
    · simp [offered, at_code, turn, Heap.visitRoots_nil]
    · exact Or.inl ⟨inner, serving.code at_code rfl rfl⟩
  | @command k' a state notes c resume at_code turn =>
    have other := spares.1 c ⟨k', a, state, notes, resume, at_code, turn⟩
    constructor
    · simp only [offered, at_code, turn, Heap.visitRoots_nil]
      exact Command.perform_heap other y.world
    · exact Or.inl ⟨inner, serving.code at_code rfl rfl⟩
  | @procedure k' a state notes p resume at_code turn =>
    have other := spares.2 k' p resume ⟨a, state, notes, at_code, turn⟩
    constructor
    · simp only [offered, at_code, turn, Heap.visitRoots_nil]
      exact Procedure.start_heap other y.world
    · refine Or.inl ⟨_, serving.enter at_code rfl rfl fun task member ofHeap => ?_⟩
      exact Procedure.start_first other y.world task member ofHeap.ofCollection
  | halt at_code turn alone =>
    have frames := serving.frames
    rw [frames_of_code at_code, alone] at frames
    exact absurd (List.append_eq_nil_iff.mp frames.symm).2 called
  | @finish k' a state notes r s rest at_code turn caller =>
    have heap : y.world.heap.visitRoots y.offered = y.world.heap.visitRoots (k'.reported r) := by
      simp only [offered, at_code, turn]
    rw [heap]
    refine ⟨Call.resume_heap E.types y.world s.progress k' r, ?_⟩
    have frames := serving.frames
    rw [frames_of_code at_code, caller] at frames
    cases inner with
    | nil =>
      obtain ⟨a, here⟩ := serving.here rfl
      obtain ⟨rfl, _⟩ := Focus.code.inj (at_code.symm.trans here)
      exact Or.inr ⟨y.world, r, s, rest, frames.symm, rfl, rfl⟩
    | cons t outer =>
      obtain ⟨rfl, same⟩ := List.cons.inj frames
      refine Or.inl ⟨_, serving.advance { s with
        todo := (k'.resume E.types y.world s.progress r).first ++ s.todo
        progress := (k'.resume E.types y.world s.progress r).progress } (congrArg _ same) rfl ?_⟩
      intro task member ofHeap
      rcases List.mem_append.mp member with first | later
      · exact Call.resume_first E.types y.world s.progress k' r task first ofHeap.ofCollection
      · exact serving.spares s (by simp) task later ofHeap
  | @ended s at_bridge done =>
    obtain ⟨outer, rfl, same⟩ := serving.bridge at_bridge
    constructor
    · simp [offered, at_bridge, done, Heap.visitRoots_nil]
    · exact Or.inl ⟨outer, serving.leave rfl same⟩
  | @called s k' todo at_bridge next =>
    obtain ⟨outer, rfl, same⟩ := serving.bridge at_bridge
    refine ⟨by simp [offered, at_bridge, next, Heap.visitRoots_nil], Or.inl ⟨_, serving.advance
      { s with todo } (congrArg _ same) rfl fun task member => ?_⟩⟩
    exact serving.spares s (by simp) task (by simp [next, member])
  | @worked s t todo at_bridge next no_call =>
    obtain ⟨outer, rfl, same⟩ := serving.bridge at_bridge
    have other : ¬ t.OfHeap := serving.spares s (by simp) t (by simp [next])
    refine ⟨?_, Or.inl ⟨_, serving.advance { s with
      todo := (t.run ⟨E.types, E.alive y.state y.world.heap⟩ y.world s.progress).first ++ todo
      progress := (t.run ⟨E.types, E.alive y.state y.world.heap⟩ y.world s.progress).progress }
      (congrArg _ same) rfl ?_⟩⟩
    · rw [offered_of_other at_bridge next other, Heap.visitRoots_nil]
      exact Task.run_heap other _ y.world s.progress
    · intro task member ofHeap
      rcases List.mem_append.mp member with first | later
      · exact Task.run_first other _ y.world s.progress task first ofHeap.ofCollection
      · exact serving.spares s (by simp) task (by simp [next, later]) ofHeap

end Serving

omit [Traced Obj] in
theorem Serving.depth {k : Call Obj} {below inner : List (Suspended E)} {y : Execution E}
    (serving : y.Serving k below inner) : 2 * below.length ≤ y.depth := by
  cases inner with
  | nil =>
    obtain ⟨a, at_code⟩ := serving.here rfl
    have frames := serving.frames
    rw [frames_of_code at_code, List.nil_append] at frames
    exact Nat.le_of_eq (by rw [depth_of_code at_code, frames])
  | cons t outer =>
    have frames := y.frames_le_depth
    rw [serving.frames, List.length_append, List.length_cons] at frames
    omega

omit [Traced Obj] in
theorem Returned.depth {k : Call Obj} {below : List (Suspended E)} {y : Execution E}
    (returned : y.Returned k below) : y.depth < 2 * below.length := by
  obtain ⟨w, r, s, rest, rfl, same, at_bridge⟩ := returned
  rw [depth_of_bridge at_bridge, same, List.length_cons]
  omega

theorem step_of_serving {k : Call Obj} {below inner : List (Suspended E)} {x : Execution E} {n : Nat}
    (serving : (x.run n).Serving k below inner) (called : below ≠ [])
    (spares : (x.run n).SparesHeap)
    (heap : (x.run n).world.heap = x.world.heap.visitRoots (x.visits n)) :
    (x.run (n + 1)).world.heap = x.world.heap.visitRoots (x.visits (n + 1)) ∧
      ((∃ inner', (x.run (n + 1)).Serving k below inner') ∨
        (x.run (n + 1)).Returned k below) := by
  rw [visits_succ, ← Heap.visitRoots_append, ← heap]
  cases next : (x.run n).step with
  | none =>
    have halted : (x.run n).reported = [] := by
      rcases at_focus : (x.run n).focus with _ | _ | _
      · simp [reported, offered, at_focus]
      · simp [step, at_focus] at next
      · simp [step, at_focus] at next
    rw [run_succ_of_halted next, halted, Heap.visitRoots_nil]
    exact ⟨rfl, Or.inl ⟨inner, serving⟩⟩
  | some y =>
    rw [run_succ_of_step next]
    exact serving.step called spares (step_cases next)

/-- As long as a call lasts, it is going on, and the heap has only been told of visits. -/
theorem serving_of_lasts {x : Execution E} {k : Call Obj} {a : E.Activity}
    (at_code : x.focus = .code k a) (called : x.below ≠ [])
    (spares : ∀ m, x.Lasts m → (x.run m).SparesHeap) {n : Nat} (lasts : x.Lasts n) :
    ∃ inner, (x.run n).Serving k x.below inner ∧
      (x.run n).world.heap = x.world.heap.visitRoots (x.visits n) := by
  induction n with
  | zero =>
    refine ⟨[], ⟨frames_of_code at_code, fun _ => ⟨a, at_code⟩, ?_, ?_⟩, ?_⟩
    · intro t last
      exact absurd last (by simp)
    · intro t member
      exact absurd member (by simp)
    · exact (Heap.visitRoots_nil _).symm
  | succ n ih =>
    have before : x.Lasts n := fun m le => lasts m (Nat.le_succ_of_le le)
    obtain ⟨inner, serving, heap⟩ := ih before
    obtain ⟨heap, inner' | returned⟩ := step_of_serving serving called (spares n before) heap
    · obtain ⟨inner', serving⟩ := inner'
      exact ⟨inner', serving, heap⟩
    · have deep := lasts (n + 1) (Nat.le_refl _)
      rw [depth_of_code at_code] at deep
      exact absurd returned.depth (Nat.not_lt.mpr deep)

theorem returned_of_endsAt {x : Execution E} {k : Call Obj} {a : E.Activity}
    (at_code : x.focus = .code k a) (called : x.below ≠ [])
    (spares : ∀ m, x.Lasts m → (x.run m).SparesHeap) {n : Nat} (ending : x.EndsAt n) :
    (x.run n).Returned k x.below ∧
      (x.run n).world.heap = x.world.heap.visitRoots (x.visits n) := by
  obtain ⟨deep, shallow⟩ := ending
  cases n with
  | zero => exact absurd shallow (Nat.lt_irrefl _)
  | succ n =>
    have before : x.Lasts n := fun m le => deep m (Nat.lt_succ_of_le le)
    obtain ⟨inner, serving, heap⟩ := serving_of_lasts at_code called spares before
    obtain ⟨heap, ⟨inner', serving⟩ | returned⟩ :=
      step_of_serving serving called (spares n before) heap
    · rw [depth_of_code at_code] at shallow
      exact absurd serving.depth (Nat.not_le.mpr shallow)
    · exact ⟨returned, heap⟩

/-- The code that the procedure in focus calls spares the heap, and its calls return. -/
structure Obliged (x : Execution E) : Prop where
  spares : ∀ n, x.Lasts n → x.depth < (x.run n).depth → (x.run n).SparesHeap
  returns : ∀ n, x.Lasts n → (x.run n).depth = x.depth + 1 → ∃ m, (x.run n).EndsAt m

theorem Obliged.resumes {x y : Execution E} {n : Nat} (obliged : x.Obliged)
    (resumes : x.Resumes n y) : y.Obliged := by
  constructor
  · intro m lasts deeper
    rw [← resumes.run, ← run_add] at deeper ⊢
    rw [resumes.run, resumes.level] at deeper
    exact obliged.spares (n + m) (resumes.lasts_add lasts) deeper
  · intro m lasts deeper
    rw [← resumes.run, ← run_add] at deeper ⊢
    rw [resumes.run, resumes.level] at deeper
    exact obliged.returns (n + m) (resumes.lasts_add lasts) deeper

theorem visits_of_not_tracing {x : Execution E} {n : Nat}
    (deaf : ∀ m < n, (x.run m).world.heap.tracing = false) : x.visits n = [] := by
  rw [visits, List.flatMap_eq_nil_iff]
  intro m member
  rw [reported, deaf m (List.mem_range.mp member)]
  rfl

/-- A call of a collection returns and leaves nothing more to do. -/
theorem call_goesOn {x : Execution E} (obliged : x.Obliged) {s : Suspended E} {k : Call Obj}
    {todo : List (Task Obj)} (at_bridge : x.focus = .bridge s) (next : s.todo = .call k :: todo)
    (hook : k.OfCollection) :
    ∃ n y, x.GoesOn { s with todo } n y ∧
      y.world.heap = x.world.heap.visitRoots (x.visits n) ∧
      (x.world.heap.tracing = false → x.visits n = []) := by
  obtain ⟨z, entered, called⟩ : ∃ z, x.run 1 = z ∧ z = ⟨x.world, x.state, .code k (E.enter k),
      { s with todo } :: x.below, .called k :: x.history⟩ :=
    ⟨_, run_one_of_bridge at_bridge, work_call next⟩
  have at_code : z.focus = .code k (E.enter k) := by rw [called]
  have below : z.below = { s with todo } :: x.below := by rw [called]
  have deeper : z.depth = x.depth + 1 := by
    rw [depth_of_code at_code, below, depth_of_bridge at_bridge, List.length_cons]
    omega
  have spares : ∀ m, z.Lasts m → (z.run m).SparesHeap := by
    intro m lasts
    have deep := lasts m (Nat.le_refl m)
    have longer := lasts_of_deeper entered deeper lasts
    rw [← entered, ← run_add] at deep ⊢
    exact obliged.spares (1 + m) longer (by rw [entered] at deep; omega)
  obtain ⟨n, ending⟩ := obliged.returns 1
    (lasts_of_deeper entered deeper (Resumes.refl z).lasts) (by rw [entered, deeper])
  rw [entered] at ending
  obtain ⟨⟨w, r, t, rest, top, below', at_bridge'⟩, heap⟩ :=
    returned_of_endsAt at_code (by simp [below]) spares ending
  obtain ⟨rfl, rfl⟩ := List.cons.inj (below.symm.trans top)
  obtain ⟨first, progress⟩ := Call.resume_ofCollection hook E.types w s.progress r
  simp only [first, progress, List.nil_append] at at_bridge'
  have level : (z.run n).depth = x.depth := by
    rw [depth_of_bridge at_bridge', below', depth_of_bridge at_bridge]
  have silent : x.reported = [] := by
    rw [reported, offered_of_other at_bridge next fun h => h, ite_self]
  refine ⟨1 + n, z.run n, ⟨resumes_of_deeper entered deeper ending level, at_bridge', below'⟩, ?_, ?_⟩
  · rw [heap, called, visits_add, visits_one, silent, entered, called, List.nil_append]
  · intro deaf
    refine visits_of_not_tracing fun m lt => ?_
    match m, lt with
    | 0, _ => exact deaf
    | m + 1, lt =>
      have lasts : z.Lasts m := fun j le => ending.1 j (by omega)
      obtain ⟨_, _, heap⟩ := serving_of_lasts at_code (by simp [below]) spares lasts
      rw [Nat.add_comm, run_add, entered, heap, called,
        Heap.visitRoots_of_not_tracing deaf]
      exact deaf

end Execution

end HostBridge
