import HostBridge.Proofs.Execution.Plan
import HostBridge.Proofs.Heap.Balance
/-!
# How far a heap grows

The heap asks for a collection when it has grown by its threshold since it was last swept. If code
collects whenever it has allocated and should, the heap stays below.
-/

namespace HostBridge

variable {Obj τ : Type}

theorem Heap.threshold_visitRoots (h : Heap Obj) (xs : List Handle) :
    (h.visitRoots xs).threshold = h.threshold := by
  rw [Heap.visitRoots_eq]

theorem dropObject_threshold (w : World Obj τ) (n : Nat) (unreferenced : Bool) :
    (w.dropObject n unreferenced).1.heap.threshold = w.heap.threshold := by
  rw [World.dropObject_eq]

theorem Command.perform_threshold [Facility τ] (w : World Obj τ) {c : Command Obj τ}
    (other : ∀ n, c ≠ .setThreshold n) : (c.perform w).world.heap.threshold = w.heap.threshold := by
  apply perform_frame Heap.threshold
  · intro _ _ _ _ made
    rw [Heap.allocate_eq made]
  · intro _ _ _
    rw [Heap.write_eq]
  · intro _ _ _ _ took
    rw [(Heap.retain_eq took).2]
  · intro n same
    exact absurd same (other n)

theorem Procedure.start_threshold (w : World Obj τ) (p : Procedure) :
    (start w p).world.heap.threshold = w.heap.threshold := by
  cases p with
  | release n => exact dropObject_threshold _ _ _
  | collect roots =>
    simp only [start]
    split <;> rfl
  | _ => rfl

theorem Task.run_threshold [Traced Obj] (t : Task Obj) (env : Surroundings) (w : World Obj τ)
    (p : Progress) : (t.run env w p).world.heap.threshold = w.heap.threshold := by
  by_cases plain : ¬ t.OfHeap
  · rw [run_heap plain]
  · cases t with
    | traceRoots r => rw [(run_traceRoots env w p r).2, Heap.threshold_visitRoots]
    | markAndSweep =>
      simp only [run]
      rw [Heap.markAndSweep_eq]
    | letGo =>
      simp only [run]
      split
      · rename_i first
        rw [dropObject_threshold, (Heap.letGo_eq first).2]
      · rfl
    | conclude =>
      simp only [run]
      rw [Heap.conclude_eq]
    | _ => exact absurd id plain

namespace Execution

variable [Facility τ] [Traced Obj] {E : Embedder Obj τ} {x : Execution E} {m n s t : Nat}

inductive Given (x : Execution E) : Nat → Nat → Prop
  | first {t : Nat} (heap : x.world.heap = .withThreshold t) : Given x t 0
  | now {t n : Nat} (performs : (x.run n).Performs (.setThreshold t)) : Given x t (n + 1)
  | before {t n : Nat} (given : Given x t n) (other : ∀ u, ¬ (x.run n).Performs (.setThreshold u)) :
      Given x t (n + 1)

theorem threshold_succ (other : ∀ t, ¬ (x.run n).Performs (.setThreshold t)) :
    (x.run (n + 1)).world.heap.threshold = (x.run n).world.heap.threshold := by
  cases x.run_rewrites n with
  | idle _ _ world | halted _ _ world | called _ _ world => rw [world]
  | @performed c performs _ world =>
    rw [world, Command.perform_threshold]
    rintro t rfl
    exact other t performs
  | began _ _ world => rw [world, Procedure.start_threshold]
  | returned _ _ world => rw [world, Call.resume_heap, Heap.threshold_visitRoots]
  | worked _ _ _ world => rw [world, Task.run_threshold]

theorem Given.threshold (given : x.Given t n) :
    (x.run n).world.heap.threshold = max t 1 := by
  induction given with
  | first heap => exact congrArg Heap.threshold heap
  | now performs =>
    rw [performs.run_succ]
    rfl
  | before _ other ih => rw [threshold_succ other, ih]

def Thinks (x : Execution E) : Prop :=
  ∃ k a state notes a', x.focus = .code k a ∧ E.next k x.world x.state a = ⟨state, notes, .proceed a'⟩

/-- Outside of a collection code has put an object into the heap, which should be collected by now, and
has done nothing since. -/
def Owes (x : Execution E) (n : Nat) : Prop :=
  ∃ l object, l < n ∧ (x.run l).Performs (.allocate object) ∧
    (x.run l).world.heap.collecting = false ∧ (x.run (l + 1)).world.heap.shouldCollect = true ∧
    ∀ j, l < j → j < n → (x.run j).Thinks

/-- Code that allocates outside of a collection asks for one next if there should be one. -/
def Checks (x : Execution E) : Prop :=
  ∀ l object, (x.run l).Performs (.allocate object) → (x.run l).world.heap.collecting = false →
    (x.run (l + 1)).world.heap.shouldCollect = true →
    ∃ m k roots resume, l < m ∧ (∀ j, l < j → j < m → (x.run j).Thinks) ∧
      (x.run m).Requests k (.collect roots) resume

omit [Traced Obj] in
theorem Thinks.not_requests {y : Execution E} (thinks_on : y.Thinks) {k : Call Obj} {p : Procedure}
    {resume : p.Answer → E.Activity} : ¬ y.Requests k p resume := by
  rintro ⟨a, state, notes, at_code, turn⟩
  obtain ⟨k', a', state', notes', a'', here, goes_on⟩ := thinks_on
  obtain ⟨rfl, rfl⟩ := Focus.code.inj (at_code.symm.trans here)
  cases congrArg Turn.move (turn.symm.trans goes_on)

theorem Owes.next (checks : x.Checks) (owes : x.Owes n) :
    (x.run n).Thinks ∨ ∃ k roots resume, (x.run n).Requests k (.collect roots) resume := by
  obtain ⟨l, object, lt, performs, idle, should, thinks⟩ := owes
  obtain ⟨m, k, roots, resume, after, thinks', requests⟩ := checks l object performs idle should
  rcases Nat.lt_trichotomy n m with early | rfl | late
  · exact Or.inl (thinks' n lt early)
  · exact Or.inr ⟨k, roots, resume, requests⟩
  · exact absurd requests (thinks m after late).not_requests

theorem Requests.settles (fresh : x.Fresh) {k : Call Obj} {roots : List RootSet}
    {resume : Nat → E.Activity} (requests : (x.run m).Requests k (.collect roots) resume)
    (idle : (x.run m).world.heap.collecting = false) {e : Nat}
    (turns : x.InTurn (m + 1) (Procedure.collection roots) e) :
    (x.run (e + 1)).world.heap.collecting = false ∧ ¬ x.Owes (e + 1) := by
  obtain ⟨_, p, _, _, at_bridge, _⟩ := requests.done fresh idle turns
  constructor
  · obtain ⟨_, _, _, world⟩ := done_endsAt at_bridge rfl
    rw [run_add, world]
    have begins : (x.run m).Begins roots := ⟨⟨k, resume, requests⟩, idle⟩
    have stack := turns.stack begins.stack
    cases run_phased fresh e with
    | idle idle => exact idle
    | busy above below _ here =>
      have waits : .task .conclude ∈ (x.run m).stack := by
        rw [← stack, here]
        exact List.mem_append_right above List.mem_cons_self
      rw [collecting_of_early fresh waits trivial] at idle
      cases idle
  · rintro ⟨l, object, lt, ⟨_, _, _, _, _, at_code, _⟩, _, _, thinks⟩
    rcases Nat.lt_succ_iff_lt_or_eq.mp lt with early | rfl
    · obtain ⟨_, _, _, _, _, at_code, _⟩ := thinks e early (Nat.lt_succ_self e)
      cases at_code.symm.trans at_bridge
    · cases at_code.symm.trans at_bridge

end Execution

section Orders

variable [Facility τ]

end Orders

namespace Execution

section Plan

variable [Facility τ] {body : Call Obj → List (Order Obj τ)} {x : Execution (plan body)} {k : Nat}

variable [Traced Obj]

end Plan

end Execution

end HostBridge
