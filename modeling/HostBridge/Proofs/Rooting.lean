import HostBridge.Proofs.Execution.Plan
import HostBridge.Proofs.Heap.Tracing
import HostBridge.Proofs.Holding
/-!
# What the bridge holds stays alive

A collection that has the bridge among its roots has traced all that the bridge holds when it sweeps
the heap, and nothing else reclaims slots.
-/

namespace HostBridge

variable {Obj τ : Type} [Facility τ] {E : Embedder Obj τ}

namespace Execution

/-- A collection that is about to begin has the bridge among its roots. -/
def Rooted (x : Execution E) : Prop :=
  ∀ k roots resume, x.Requests k (.collect roots) resume → x.world.heap.collecting = false →
    .bridge ∈ roots

def plansBridge {body : Call Obj → List (Order Obj τ)} (x : Execution (plan body)) : Bool :=
  match x.focus with
  | .code _ (orders : List (Order Obj τ)) =>
    match orders with
    | .procedure (.collect roots) :: _ => roots.contains .bridge
    | _ => true
  | _ => true

theorem plan_rooted {body : Call Obj → List (Order Obj τ)} {x : Execution (plan body)}
    (planned : x.plansBridge = true) : x.Rooted := by
  intro k roots resume requests _
  rcases plan_requested requests with ⟨rest, at_code⟩
  simp only [plansBridge, at_code] at planned
  simpa using planned

theorem plan_rooted_run [Traced Obj] {body : Call Obj → List (Order Obj τ)}
    {x : Execution (plan body)} {m : Nat} (ended : (x.run m).step.isNone = true)
    (planned : ∀ n ≤ m, (x.run n).plansBridge = true) (n : Nat) : (x.run n).Rooted :=
  run_of_halted (P := Rooted) (Option.isNone_iff_eq_none.mp ended) (Nat.zero_le m)
    (fun n early _ => plan_rooted (planned n early)) n (Nat.zero_le n)

section Run

variable [Traced Obj] {x : Execution E} (fresh : x.Fresh) (rooted : ∀ n, (x.run n).Rooted)
  (steady : ∀ n, (x.run n).world.heap.tracing = true →
    (x.run n).world.SameRegistries (x.run (n + 1)).world)

include steady

/-- The bridge has the same roots as long as roots are traced. -/
theorem roots_of_tracing {j l : Nat} (le : j ≤ l)
    (tracing : ∀ i, j ≤ i → i ≤ l → (x.run i).world.heap.tracing = true) :
    (x.run l).world.roots = (x.run j).world.roots := by
  induction le with
  | refl => rfl
  | @step l le ih =>
    have before := ih fun i after early => tracing i after (Nat.le_succ_of_le early)
    rw [(steady l (tracing l le (Nat.le_succ l))).roots, before]

include fresh rooted

theorem run_succ_keeps_roots_alive (n : Nat) {y : Handle} (held : y ∈ (x.run n).world.roots)
    (alive : (x.run n).world.heap.alive y = true) : (x.run (n + 1)).world.heap.alive y = true := by
  refine run_succ_keeps_alive fresh (fun visited sweeps => ?_) alive
  obtain ⟨b, roots, _, ⟨⟨k, resume, asked⟩, idle⟩, _, traced⟩ := sweeps.gathered fresh
  obtain ⟨j, _, traces⟩ := traced .bridge (rooted b k roots resume asked idle)
  rw [roots_of_tracing steady (Nat.le_of_lt traces.before) traces.tracing] at held
  exact .root (traces.mem_visited sweeps.phase held)

/-- Every collection has the bridge among its roots, and the registries stay the same while roots are
traced. A handle that an entry names is alive as long as the entry is held, if it was alive before. -/
theorem held_handles_stay_alive {c : ContextId} {entry : Holding} {m n : Nat} (le : m ≤ n)
    (held : ∀ j, m ≤ j → j ≤ n → (x.run j).world.Holds c entry) {y : Handle}
    (names : entry.Names y) (alive : (x.run m).world.heap.alive y = true) :
    (x.run n).world.heap.alive y = true := by
  induction le with
  | refl => exact alive
  | @step n le ih =>
    have before := ih fun j after early => held j after (Nat.le_succ_of_le early)
    have root := World.mem_roots_of_holds (held n le (Nat.le_succ n)) names
    exact run_succ_keeps_roots_alive fresh rooted steady n root before

end Run

def timerPlan :
    Execution (plan fun _ : Call (List Handle) => ([] : List (Order (List Handle) Manual))) :=
  planned {} _ [.command (.createContext none), .command (.allocate []), .command (.allocate []),
    .command (.setTimer ⟨1⟩ .once (.object ⟨0, 0⟩) .zero []), .procedure (.collect [.bridge]),
    .command (.dispose ⟨1⟩), .procedure (.collect [.handles [], .bridge])]

def keptTimer : Entry TimerId Timer :=
  ⟨⟨1⟩, 0,
    { id := ⟨1⟩, context := ⟨1⟩, callback := .object ⟨0, 0⟩, mode := .once, level := 1 }⟩

theorem timer_keeps_callback_alive :
    (timerPlan.run 4).world.heap.alive ⟨1, 0⟩ = true ∧
      (timerPlan.run 20).world.heap.alive ⟨1, 0⟩ = false ∧
      (timerPlan.run 20).world.heap.alive ⟨0, 0⟩ = true := by
  have halted : (timerPlan.run 40).step = none := by
    have none : (timerPlan.run 40).step.isNone = true := by decide +kernel
    exact Option.isNone_iff_eq_none.mp none
  have rooted : ∀ n, (timerPlan.run n).Rooted :=
    plan_rooted_run (Option.isNone_iff_eq_none.mpr halted) (by decide +kernel)
  have steady : ∀ n, (timerPlan.run n).world.heap.tracing = true →
      (timerPlan.run n).world.SameRegistries (timerPlan.run (n + 1)).world := by
    intro n
    by_cases early : n ≤ 40
    · have same : ∀ n ≤ 40, (timerPlan.run n).world.heap.tracing = true →
          (timerPlan.run n).world.SameRegistries (timerPlan.run (n + 1)).world := by decide +kernel
      exact same n early
    · rw [run_of_halted_le halted (Nat.le_of_not_le early)]
      exact fun tracing => absurd tracing (by decide +kernel)
  have held : ∀ j, 4 ≤ j → j ≤ 20 → (timerPlan.run j).world.Holds ⟨1⟩ (.timer keptTimer) := by
    intro j after early
    have all : ∀ j ≤ 20, 4 ≤ j → (timerPlan.run j).world.Holds ⟨1⟩ (.timer keptTimer) := by
      decide +kernel
    exact all j early after
  refine ⟨by decide +kernel, by decide +kernel, ?_⟩
  exact held_handles_stay_alive ⟨_, _, _, 1024, rfl, rfl⟩ rooted steady (by decide) held
    (Or.inl rfl) (by decide +kernel)

end Execution

end HostBridge
