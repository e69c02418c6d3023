import HostBridge.Proofs.Execution.Plan
import HostBridge.Proofs.Heap.Balance
/-!
# What drop hooks find

A collection takes everything that it sweeps out of its slots before it drops the first of it. So
whatever the hooks of the dropped objects do, they find what was swept dead and the rest alive, and
what they allocate survives, even in a slot that has just been swept.
-/

namespace HostBridge

variable {Obj τ : Type}

def Deposit.written? (y : Handle) : Deposit Obj → Option Obj
  | allocated .. => none
  | written x object => if x = y then some object else none

namespace Heap

variable {h h' : Heap Obj} {y : Handle}

theorem Takes.keeps (sound : h.Sound) {d : Deposit Obj} (takes : h.Takes d h')
    (alive : h.alive y = true) :
    h'.number? y = h.number? y ∧ h'.get? y = (d.written? y).or (h.get? y) := by
  cases takes with
  | allocated made =>
    obtain ⟨i, placed⟩ := sound.allocate made
    exact ⟨placed.keeps_number? alive, placed.keeps_get? sound alive⟩
  | @written x object written_alive =>
    obtain ⟨n, named⟩ := alive_iff.mp written_alive
    obtain ⟨k, number⟩ := alive_iff.mp alive
    have same : (h.write x object).number? y = h.number? y :=
      SameSlot.number? (.of_eq (slots_eq_of_write h x object) _)
    refine ⟨same, ?_⟩
    rw [Heap.get?, same, number, Option.bind_some,
      object?_write named (sound.lt_objects (live_of_number? named)), Deposit.written?, Heap.get?,
      number, Option.bind_some]
    by_cases here : x = y
    · subst here
      obtain rfl := Option.some.inj (named.symm.trans number)
      rw [if_pos rfl, if_pos rfl, Option.some_or]
    · -- An object is in one slot, which one handle names.
      have other : n ≠ k := by
        rintro rfl
        exact here (sound.eq_of_number? named number)
      rw [if_neg other, if_neg here, Option.none_or]

end Heap

namespace Execution

variable [Facility τ] {E : Embedder Obj τ} [Traced Obj]

variable {x : Execution E} {m n : Nat} {y : Handle}

theorem Sweeps.upkeep {visited : List Handle} (sweeps : (x.run n).Sweeps visited) :
    (x.run n).world.heap.Upkeep (x.run (n + 1)).world.heap := by
  have same : (x.run n).world.heap.markAndSweep = (x.run (n + 1)).world.heap := by
    rw [sweeps.heap, Heap.markAndSweep, sweeps.phase]
  exact same ▸ .sweep

/-- The collection that begins at `b` sweeps at `l` what is not reachable from `visited`, has let go of
it at `c`, when it is concluded, and comes to its end at `e`. -/
structure Passage (x : Execution E) (b : Nat) (roots : List RootSet) (visited : List Handle)
    (l c e : Nat) : Prop where
  traced : x.InTurn (b + 1) (roots.map .traceRoots) l
  sweeps : (x.run l).Sweeps visited
  dropped : x.InTurn (l + 1) [.letGo] c
  concludes : (x.run c).AtTask .conclude
  ended : x.InTurn (b + 1) (Procedure.collection roots) e

structure Records (x : Execution E) (visited : List Handle) (l c : Nat) : Prop where
  marked : (x.run (c + 1)).world.heap.stats.marked =
    {n | (x.run l).world.heap.Survives visited n}.ncard
  reclaimed : (x.run (c + 1)).world.heap.stats.reclaimed =
    {n | (x.run l).world.heap.Live n ∧ ¬ (x.run l).world.heap.Survives visited n}.ncard
  live : (x.run (c + 1)).world.heap.stats.live =
    (x.run (c + 1)).world.heap.stats.marked + x.allocations (l + 1) c

/-- Every hook that the collection begun at `b` calls before it comes to its end returns. -/
def HooksReturn (x : Execution E) (b : Nat) (roots : List RootSet) : Prop :=
  ∀ l h, b < l → (∀ e ≤ l, ¬ x.InTurn (b + 1) (Procedure.collection roots) e) →
    Call.OfCollection h → (x.run l).AtTask (.call h) → ∃ i, (x.run l).FinishesAt i

variable {b l c e : Nat} {roots : List RootSet} {visited : List Handle}

theorem Begins.passage (fresh : x.Fresh) (begins : (x.run b).Begins roots)
    (returns : x.HooksReturn b roots) : ∃ visited l c e, x.Passage b roots visited l c e := by
  have ends : ∃ e, x.InTurn (b + 1) (Procedure.collection roots) e := by
    rcases begins.ends fresh with ends | ⟨l, h, after, hook, next, endless⟩
    · exact ends
    · by_contra never
      rw [not_exists] at never
      obtain ⟨i, finishes⟩ := returns l h after (fun e _ => never e) hook next
      exact absurd (endless i i (Nat.le_refl i)) (Nat.not_le.mpr finishes.2)
  obtain ⟨e, ended⟩ := ends
  obtain ⟨visited, l, traced, sweeps, later⟩ := ended.exists_sweep fresh
  obtain ⟨c, dropped, told⟩ := later.split
  cases told with
  | cons concludes => exact ⟨visited, l, c, e, traced, sweeps, dropped, concludes, ended⟩

namespace Passage

variable (passage : x.Passage b roots visited l c e)

include passage

theorem no_stage (fresh : x.Fresh) (begins : (x.run b).Begins roots) :
    x.stages (l + 1) c = [] := by
  have top := begins.stack
  rw [Procedure.collection_eq, List.map_append, List.append_assoc] at top
  have here := passage.traced.stack top
  obtain ⟨_, there, _⟩ := (x.run_rewrites l).of_task here fun k same => by cases same
  exact passage.dropped.stages fresh there List.mem_cons_self

theorem no_sweep (fresh : x.Fresh) (begins : (x.run b).Begins roots) (late : l < m) (le : n ≤ c) :
    ∀ i, m ≤ i → i < n → ∀ visited, ¬ (x.run i).Sweeps visited := by
  intro i after lt visited' sweeps
  exact not_atTask_of_stages (passage.no_stage fresh begins) (Nat.le_trans late after)
    (Nat.lt_of_lt_of_le lt le) rfl sweeps.next

theorem dropping (fresh : x.Fresh) (begins : (x.run b).Begins roots) {i : Nat} (late : l < i)
    (le : i ≤ c) : (x.run i).world.heap.phase =
      .dropping ((x.run l).world.heap.mark visited.reverse).marked
        (Heap.garbage ((x.run l).world.heap.mark visited.reverse).slots).length := by
  refine dropping_of_not_conclude late (by rw [passage.sweeps.heap]; rfl) fun j after lt => ?_
  exact not_atTask_of_stages (passage.no_stage fresh begins) after (Nat.lt_of_lt_of_le lt le) rfl

theorem length_doomed (fresh : x.Fresh) : (x.run (l + 1)).world.heap.doomed.length =
    {n | (x.run l).world.heap.Live n ∧ ¬ (x.run l).world.heap.Survives visited n}.ncard := by
  rw [passage.sweeps.heap, Heap.length_doomed, (sound_run fresh l).reclaimed]
  simp only [Heap.survives_reverse]

theorem records (fresh : x.Fresh) (begins : (x.run b).Begins roots) : x.Records visited l c := by
  have late := passage.dropped.le
  have phase := passage.dropping fresh begins late (Nat.le_refl c)
  have marked : ((x.run l).world.heap.mark visited.reverse).marked =
      {n | (x.run l).world.heap.Survives visited n}.ncard := by
    rw [(sound_run fresh l).marked]
    simp only [Heap.survives_reverse]
  have reclaimed := passage.length_doomed fresh
  rw [passage.sweeps.heap, Heap.length_doomed] at reclaimed
  have left : (x.run (l + 1)).world.heap.liveCount =
      {n | (x.run l).world.heap.Survives visited n}.ncard := by
    rw [(sound_run fresh (l + 1)).liveCount, passage.sweeps.heap]
    simp only [(sound_run fresh l).live_sweep_iff, Heap.survives_reverse]
  have grown := liveCount_of_no_sweep fresh late
    (passage.no_sweep fresh begins (Nat.lt_succ_self l) (Nat.le_refl c))
  rw [marked, reclaimed] at phase
  have concluded := passage.concludes.conclude
  simp only [Heap.conclude, phase] at concluded
  refine ⟨by rw [concluded], by rw [concluded], ?_⟩
  rw [concluded]
  exact left ▸ grown

end Passage

end Execution

end HostBridge
