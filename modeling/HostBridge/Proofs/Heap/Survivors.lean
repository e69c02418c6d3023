import HostBridge.Proofs.Execution.Plan
import HostBridge.Proofs.Heap.Collection
import HostBridge.Proofs.Heap.Count
/-!
# What survives a collection

What was alive and is reachable, and nothing else: survivors keep their objects, and the numbers that
a collection gives are those of the objects it marked and swept.
-/

namespace HostBridge

variable {Obj τ : Type} [Traced Obj]

namespace Heap.Collected

variable {h h' : Heap Obj} {visited : List Handle}

theorem number? (collected : h.Collected visited h') (x : Handle) :
    h'.number? x = (h.sweep (h.mark visited)).number? x :=
  SameSlot.number? (.of_eq collected.slots _)

theorem alive_iff (collected : h.Collected visited h') (x : Handle) :
    h'.alive x = true ↔ h.alive x = true ∧ h.Reachable visited x := by
  rw [← sweep_mark_alive, Heap.alive, Heap.alive, collected.number?]

theorem keeps_number? (collected : h.Collected visited h') {x : Handle}
    (alive : h'.alive x = true) : h'.number? x = h.number? x := by
  obtain ⟨living, reached⟩ := (collected.alive_iff x).mp alive
  have kept := fun swept => (mem_garbage_mark living).mp swept reached
  rw [collected.number?, sweep_number? (mark_triColour h visited).same, if_neg kept]

theorem live_iff (collected : h.Collected visited h') (sound : h.Sound) (n : Nat) :
    h'.Live n ↔ h.Survives visited n := by
  rw [← sound.live_sweep_iff, Live, Live, collected.slots]

theorem keeps_get? (collected : h.Collected visited h') (sound : h.Sound) {x : Handle}
    (alive : h'.alive x = true) : h'.get? x = h.get? x := by
  obtain ⟨n, number⟩ := Heap.alive_iff.mp alive
  have before : h.number? x = some n := by rw [← collected.keeps_number? alive, number]
  rw [Heap.get?, Heap.get?, number, before]
  refine collected.content n fun doomed => ?_
  have swept := sound.sweep (mark_triColour h visited).same
  refine (swept.doomed n doomed).2 ?_
  rw [collected.number?] at number
  exact live_of_number? number

theorem liveCount (collected : h.Collected visited h') (sound : h.Sound) :
    h'.liveCount = {n | h.Survives visited n}.ncard := by
  have same : h'.liveCount = (h.sweep (h.mark visited)).liveCount := by
    rw [Heap.liveCount, Heap.liveCount, collected.slots]
  rw [same, (sound.sweep (mark_triColour h visited).same).liveCount]
  congr 1
  ext n
  exact sound.live_sweep_iff

end Heap.Collected

namespace Heap

/-- Stale handles keep nothing alive: what is reachable is reachable from the live roots. -/
theorem reachable_of_live_roots {h : Heap Obj} {visited : List Handle} {y : Handle}
    (alive : h.alive y = true) :
    h.Reachable (visited.filter h.alive) y ↔ h.Reachable visited y := by
  constructor
  · intro reached
    induction reached with
    | root reported => exact .root (List.mem_filter.mp reported).1
    | reference _ found reported ih =>
      exact .reference (ih (alive_of_get? found)) found reported
  · intro reached
    induction reached with
    | root reported => exact .root (List.mem_filter.mpr ⟨reported, alive⟩)
    | reference _ found reported ih =>
      exact .reference (ih (alive_of_get? found)) found reported

/-- A collection of `h` whose root sets report `visited` answers `count` and leaves `h'`. -/
structure KeepsReachable (h : Heap Obj) (visited : List Handle) (count : Nat) (h' : Heap Obj) :
    Prop where
  alive_iff : ∀ x, h'.alive x = true ↔ h.alive x = true ∧ h.Reachable visited x
  stale : ∀ x, h'.alive x = true ↔ h.alive x = true ∧ h.Reachable (visited.filter h.alive) x
  same_object : ∀ x, h'.alive x = true → h'.number? x = h.number? x ∧ h'.get? x = h.get? x
  live_iff : ∀ n, h'.Live n ↔ h.Survives visited n
  answer : count = {n | h.Live n ∧ ¬ h.Survives visited n}.ncard
  marked : h'.stats.marked = {n | h.Survives visited n}.ncard
  live : h'.stats.live = h'.stats.marked ∧ h'.liveCount = h'.stats.live
  reclaimed : h'.stats.reclaimed = count

theorem Collected.keepsReachable {h h' : Heap Obj} {visited : List Handle}
    (collected : h.Collected visited h') (sound : h.Sound) :
    h.KeepsReachable visited (garbage (h.mark visited).slots).length h' := by
  have marked : (h.mark visited).marked = {n | h.Survives visited n}.ncard := sound.marked
  refine ⟨collected.alive_iff, ?_, ?_, collected.live_iff sound, sound.reclaimed, ?_, ?_, ?_⟩
  · intro x
    rw [collected.alive_iff]
    constructor
    · intro survives
      rcases survives with ⟨alive, reached⟩
      exact ⟨alive, (reachable_of_live_roots alive).mpr reached⟩
    · intro survives
      rcases survives with ⟨alive, reached⟩
      exact ⟨alive, (reachable_of_live_roots alive).mp reached⟩
  · intro x alive
    exact ⟨collected.keeps_number? alive, collected.keeps_get? sound alive⟩
  · rw [collected.stats, marked]
  · rw [collected.stats, collected.liveCount sound, marked]
    exact ⟨rfl, rfl⟩
  · rw [collected.stats]

end Heap

namespace Execution

variable [Facility τ]

/-- Code outside of any collection asks for one, whose hooks spare the heap and return. -/
theorem collect_keeps_exactly_the_reachable {E : Embedder Obj τ} {x₀ x : Execution E}
    (fresh : x₀.Fresh) (reached : Reaches x₀ x) {k : Call Obj} {roots : List RootSet}
    {resume : Nat → E.Activity} (asked : x.Requests k (.collect roots) resume)
    (idle : x.world.heap.collecting = false) (obliged : (x.run 1).Obliged) :
    ∃ n count, (x.run 1).EndsAt n ∧
      ((x.run 1).run n).focus = .code k (resume count) ∧ ((x.run 1).run n).below = x.below ∧
      x.world.heap.KeepsReachable ((x.run 1).visits n) count ((x.run 1).run n).world.heap := by
  obtain ⟨m, rfl⟩ := reached.exists_run
  obtain ⟨at_bridge, below, world⟩ := asked.run_one
  simp only [Procedure.start, idle, Bool.false_eq_true, if_false] at at_bridge world
  obtain ⟨n, ending, below', focus, collected⟩ :=
    collection_ends obliged at_bridge rfl (by rw [world])
  exact ⟨n, _, ending, focus, below'.trans below, collected.keepsReachable (sound_run fresh m)⟩

section Quiet

variable {x y : Execution (plan fun _ : Call Obj => ([] : List (Order Obj τ)))}

def Quiet (d : Nat) (x : Execution (plan fun _ : Call Obj => ([] : List (Order Obj τ)))) : Prop :=
  ((∃ s, x.focus = .bridge s) ∧ x.depth = d) ∨ ((∃ k, x.focus = .code k []) ∧ x.depth = d + 1)

theorem Quiet.step {d : Nat} (odd : d % 2 = 1) (quiet : x.Quiet d) (stepped : Stepped x y)
    (lasts : d ≤ y.depth) : y.Quiet d := by
  rcases quiet with ⟨⟨s, at_bridge⟩, level⟩ | ⟨⟨k, at_code⟩, level⟩
  · rw [depth_of_bridge at_bridge] at level
    cases stepped with
    | proceed at_code | command at_code | procedure at_code | halt at_code | finish at_code =>
      rw [at_code] at at_bridge
      exact absurd at_bridge (by simp)
    | ended at_bridge' done =>
      have shallow : d ≤ 2 * x.below.length := lasts
      omega
    | @called t k todo at_bridge' next =>
      refine Or.inr ⟨⟨k, rfl⟩, ?_⟩
      rw [depth_of_code rfl, List.length_cons]
      omega
    | worked at_bridge' next no_call =>
      refine Or.inl ⟨⟨_, rfl⟩, ?_⟩
      rw [depth_of_bridge rfl, level]
  · rw [depth_of_code at_code] at level
    cases stepped with
    | ended at_bridge | called at_bridge | worked at_bridge =>
      rw [at_code] at at_bridge
      exact absurd at_bridge (by simp)
    | proceed at_code' turn | command at_code' turn | procedure at_code' turn =>
      obtain ⟨rfl, same⟩ := Focus.code.inj (at_code.symm.trans at_code')
      rw [← same] at turn
      exact nomatch congrArg Turn.move turn
    | halt at_code' turn alone =>
      rw [alone] at level
      exact absurd level (by simp)
    | @finish k' a state notes r s below at_code' turn caller =>
      refine Or.inl ⟨⟨_, rfl⟩, ?_⟩
      have same : 2 * (below.length + 1) = d + 1 := by rwa [caller, List.length_cons] at level
      exact Nat.succ.inj same

theorem quiet_obliged {s : Suspended (plan fun _ : Call Obj => ([] : List (Order Obj τ)))}
    (at_bridge : x.focus = .bridge s) : x.Obliged := by
  have odd : x.depth % 2 = 1 := by
    rw [depth_of_bridge at_bridge]
    omega
  -- Procedures stand at odd depths and code at even ones, which keeps them apart.
  have quiet : ∀ n, x.Lasts n → (x.run n).Quiet x.depth := by
    intro n
    induction n with
    | zero => exact fun _ => Or.inl ⟨⟨s, at_bridge⟩, rfl⟩
    | succ n ih =>
      intro lasts
      have before := ih fun m le => lasts m (Nat.le_succ_of_le le)
      rcases run_succ_cases x n with same | stepped
      · rwa [same]
      · exact before.step odd stepped (lasts (n + 1) (Nat.le_refl _))
  constructor
  · intro n lasts deeper
    rcases quiet n lasts with ⟨_, level⟩ | ⟨⟨k, at_code⟩, _⟩
    · exact absurd level (Nat.ne_of_gt deeper)
    · constructor
      · intro c performs
        exact absurd performs (not_performs_of_no_orders at_code)
      · intro k' p resume requests
        exact absurd requests (not_requests_of_no_orders at_code)
  · intro n lasts deeper
    rcases quiet n lasts with ⟨_, level⟩ | ⟨⟨k, at_code⟩, _⟩
    · omega
    · refine ⟨1, finish_endsAt at_code rfl ?_⟩
      intro alone
      rw [depth_of_code at_code, alone] at deeper
      exact absurd deeper (by simp)

end Quiet

/-- Two objects refer to each other and a third one to them; one of the two is a root, beside a stale
handle to the third. -/
def cycle :
    Execution (plan fun _ : Call (List Handle) => ([] : List (Order (List Handle) Manual))) :=
  planned {} _ [.command (.allocate [⟨1, 0⟩]), .command (.allocate [⟨0, 0⟩]),
    .command (.allocate [⟨0, 0⟩]), .procedure (.collect [.handles [⟨1, 0⟩, ⟨2, 7⟩], .external 0])]

theorem cycle_survives_without_third :
    (∃ n count, ((cycle.run 3).run 1).EndsAt n ∧
      (((cycle.run 3).run 1).run n).focus = .code .session [] ∧
      (((cycle.run 3).run 1).run n).below = [] ∧
      (cycle.run 3).world.heap.KeepsReachable (((cycle.run 3).run 1).visits n) count
        (((cycle.run 3).run 1).run n).world.heap) ∧
    (cycle.run 30).world.heap.stats = ⟨1, 2, 1, 2⟩ := by
  have asked : (cycle.run 3).Requests .session
      (.collect [.handles [⟨1, 0⟩, ⟨2, 7⟩], .external 0]) fun _ => [] := plan_requests rfl
  refine ⟨?_, by decide +kernel⟩
  exact collect_keeps_exactly_the_reachable ⟨_, _, _, 1024, rfl, rfl⟩ (reaches_run cycle 3) asked
    (by decide +kernel) (quiet_obliged asked.run_one.1)

end Execution

end HostBridge
