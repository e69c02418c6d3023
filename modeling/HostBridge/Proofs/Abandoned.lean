import HostBridge.Proofs.Contexts.Keeping
import HostBridge.Proofs.Heap.Round
import HostBridge.Proofs.Rooting
/-!
# Abandoned entries

A timer or a frame request that is abandoned keeps its handles alive for one more collection. The
end of that collection lets go of the entry, so that the next one reclaims what nothing else reaches.
-/

namespace HostBridge

variable {Obj τ : Type} [Facility τ] {E : Embedder Obj τ} [Traced Obj]

namespace Execution

/-- With the step at `m` the entry stops being active, in a context that the bridge still holds. -/
structure Abandons (x : Execution E) (c : ContextId) (entry : Holding) (m : Nat) : Prop where
  active : (x.run m).world.Active c entry
  inactive : ¬ (x.run (m + 1)).world.Active c entry
  held : (x.run (m + 1)).world.Holds c entry

/-- Between `m` and `f` the bridge does not end, and only collections tell the context that they
have finished. The number of the context is not given out again. -/
structure Undisturbed (x : Execution E) (c : ContextId) (m f : Nat) : Prop where
  lasts : ∀ q, m < q → q < f → ¬ (x.run q).Performs .close
  not_by_hand : ∀ q, m < q → q < f → ¬ (x.run q).Performs (.reclaim c)
  numbered : ∀ q, m < q → ∀ config, (x.run q).Performs (.createContext config) →
    (x.run q).world.nextContext ≠ c

/-- The bridge does not hold the context any more, or the context has let go of the entry. -/
def Released (x : Execution E) (c : ContextId) (entry : Holding) : Prop :=
  ¬ x.world.Houses c ∨ x.world.OfEntry (fun r e => r.Lost e) c entry

variable {x : Execution E} {c : ContextId} {entry : Holding} {m n f : Nat}

theorem Abandons.abandoned (blank : x.Blank) (abandons : x.Abandons c entry m) :
    (x.run (m + 1)).world.OfEntry (fun r e => r.Abandoned e) c entry := by
  obtain ⟨a, found, active⟩ := abandons.active
  obtain ⟨timers_sound, frames_sound⟩ := registries_sound blank m a (Option.mem_def.mp found)
  obtain ⟨b, after, timers, frames⟩ := follows_succ (Option.mem_def.mp found)
  have inactive : ¬ b.Active entry := fun still => abandons.inactive ⟨b, after, still⟩
  obtain ⟨_, b', same, holds⟩ := abandons.held
  obtain rfl : b = b' := Option.some.inj (after.symm.trans same)
  refine ⟨b, after, ?_⟩
  cases entry with
  | timer e =>
    exact ⟨⟨timers_sound.lt_accepted timers active, inactive⟩,
      (List.mem_append.mp holds).resolve_left inactive⟩
  | frame e =>
    exact ⟨⟨frames_sound.lt_accepted frames active, inactive⟩,
      (List.mem_append.mp holds).resolve_left inactive⟩
  | _ => exact active.elim

/-- Until a root set is told that a collection has finished, an abandoned entry is held. -/
theorem Abandons.held_until (blank : x.Blank) (abandons : x.Abandons c entry m)
    (undisturbed : x.Undisturbed c m f) (after : m < n) (before : n < f)
    (not_told : ∀ q, m < q → q < n → ∀ r, ¬ (x.run q).AtTask (.traceComplete r)) :
    (x.run n).world.Holds c entry := by
  have both : (x.run n).world.Houses c ∧
      (x.run n).world.OfEntry (fun r e => r.Abandoned e) c entry := by
    induction after with
    | refl => exact ⟨abandons.held.1, abandons.abandoned blank⟩
    | @step n after ih =>
      obtain ⟨housed, abandoned⟩ := ih (Nat.lt_of_succ_lt before) fun q from_m lt =>
        not_told q from_m (Nat.lt_succ_of_lt lt)
      have lt := Nat.lt_of_succ_lt before
      have told := not_told n after (Nat.lt_succ_self n)
      refine ⟨(x.run_rewrites n).rehouses.houses housed (undisturbed.lasts n after lt)
        (told .bridge), ofEntry_succ (fun follows here => here.follows ?_ follows) abandoned⟩
      rintro (performs | ⟨completes, _⟩ | completes)
      · exact undisturbed.not_by_hand n after lt performs
      · exact told _ completes
      · exact told _ completes
  obtain ⟨housed, a, found, abandoned⟩ := both
  exact ⟨housed, a, found, Context.holds_of_abandoned abandoned⟩

theorem Abandons.gone (blank : x.Blank) (abandons : x.Abandons c entry m) (after : m < n) :
    (x.run n).world.OfEntry (fun r e => r.Gone e) c entry := by
  induction after with
  | refl =>
    obtain ⟨a, found, abandoned⟩ := abandons.abandoned blank
    refine ⟨a, found, ?_⟩
    cases entry with
    | timer | frame => exact abandoned.gone
    | _ => exact abandoned.elim
  | step _ ih => exact ofEntry_succ (fun follows gone => gone.follows follows) ih

theorem released_of_told (gone : (x.run n).world.OfEntry (fun r e => r.Gone e) c entry)
    (told : (x.run n).AtTask (.traceComplete .bridge)) : (x.run (n + 1)).Released c entry := by
  obtain ⟨rest, top⟩ := told
  obtain ⟨p, _, world⟩ := (x.run_rewrites n).of_task top fun k same => nomatch same
  have reclaimed : (x.run (n + 1)).world = (x.run n).world.reclaim := world
  rw [Released, reclaimed]
  obtain ⟨a, found, gone⟩ := gone
  cases live : (x.run n).world.isLive c with
  | true =>
    refine Or.inr ⟨a.reclaim, ?_, ?_⟩
    · rw [World.context?_reclaim, Option.mem_def.mp found, live]
      rfl
    · cases entry with
      | timer | frame => exact ⟨gone.apply .reclaim, List.not_mem_nil⟩
      | _ => exact gone.elim
  | false =>
    refine Or.inl ?_
    rintro (still | nothing)
    · have listed : (x.run n).world.isLive c = true := List.contains_iff_mem.mpr still
      rw [live] at listed
      exact nomatch listed
    · exact nomatch nothing

theorem Released.of_le (released : (x.run m).Released c entry) (le : m ≤ n)
    (numbered : ∀ q, m ≤ q → ∀ config, (x.run q).Performs (.createContext config) →
      (x.run q).world.nextContext ≠ c) : (x.run n).Released c entry := by
  induction le with
  | refl => exact released
  | @step n le ih =>
    rcases ih with let_go | lost
    · exact Or.inl ((x.run_rewrites n).rehouses.not_houses let_go (numbered n le))
    · exact Or.inr (ofEntry_succ (fun follows lost => lost.follows follows) lost)

omit [Traced Obj] in
theorem Released.not_holds {y : Execution E} (released : y.Released c entry) :
    ¬ y.world.Holds c entry := by
  rintro ⟨housed, a, found, holds⟩
  rcases released with let_go | ⟨a', same, lost⟩
  · exact let_go housed
  · obtain rfl : a = a' := Option.some.inj (found.symm.trans same)
    exact Context.not_holds_of_lost lost holds

/-- The entry of a context that the bridge holds is abandoned while no collection is in progress,
and the first collection to follow has the bridge among its roots. Then the handles that the entry
names survive that collection if they were alive; from its end on the bridge holds the entry no
more; and of its handles the next collection leaves alive those that it reaches from what its roots
visited. -/
theorem abandoned_entry_lasts_one_collection (fresh : x.Fresh) (blank : x.Blank)
    (abandons : x.Abandons c entry m) {roots : List RootSet} {b : Nat}
    (round : x.Round roots m b f) (rooted : .bridge ∈ roots) (undisturbed : x.Undisturbed c m f) :
    (∀ y, entry.Names y → (x.run m).world.heap.alive y = true →
      (x.run f).world.heap.alive y = true) ∧
    (∀ n, f ≤ n → ¬ (x.run n).world.Holds c entry) ∧
    ∀ roots' b' f', x.Round roots' f b' f' → ∃ l visited, b' < l ∧ l < f' ∧
      (x.run l).Sweeps visited ∧
      ∀ y, entry.Names y → (x.run m).world.heap.alive y = true →
        ((x.run f').world.heap.alive y = true ↔ (x.run l).world.heap.Reachable visited y) := by
  have survives : ∀ y, entry.Names y → (x.run m).world.heap.alive y = true →
      (x.run f).world.heap.alive y = true := by
    intro y names alive
    obtain ⟨l, visited, _, before, sweeps, traced, survives_iff⟩ := round.exists_sweep fresh
    obtain ⟨j, begun, traces⟩ := traced .bridge rooted
    have lt : m < j := Nat.lt_of_le_of_lt round.after begun
    have held : (x.run j).world.Holds c entry := by
      refine abandons.held_until blank undisturbed lt (Nat.lt_trans traces.before before) ?_
      intro q after early r
      exact round.not_complete fresh before sweeps (Nat.le_of_lt after)
        (Nat.le_of_lt (Nat.lt_trans early traces.before))
    exact (survives_iff y alive).mpr
      (.root (traces.mem_visited sweeps.phase (World.mem_roots_of_holds held names)))
  refine ⟨survives, ?_, ?_⟩
  · intro n late
    obtain ⟨q, begun, before, told⟩ :=
      round.exists_atTask (t := .traceComplete .bridge) (by simp [Procedure.collection, rooted])
    have after : m < q := Nat.lt_of_le_of_lt round.after begun
    have released := released_of_told (abandons.gone blank after) told
    refine (released.of_le (Nat.le_trans before late) fun p late => ?_).not_holds
    exact undisturbed.numbered p (Nat.lt_trans after late)
  · intro roots' b' f' next
    obtain ⟨l, visited, begun, before, sweeps, _, survives_iff⟩ := next.exists_sweep fresh
    refine ⟨l, visited, begun, before, sweeps, fun y names alive => ?_⟩
    exact survives_iff y (survives y names alive)

end Execution

def Order.leavesAlone : Order Obj τ → Bool
  | .command .close | .command (.createContext _) | .command (.reclaim _) => false
  | _ => true

def Order.roots? : Order Obj τ → Option (List RootSet)
  | .procedure (.collect roots) => some roots
  | _ => none

namespace Execution

section Plan

variable {body : Call Obj → List (Order Obj τ)} {x : Execution (plan body)} {c : ContextId}
  {m f k : Nat}

theorem plan_undisturbed (ended : (x.run k).step.isNone = true) (early : m + 1 ≤ k)
    (checked : ∀ q ≤ k, m + 1 ≤ q → (x.run q).order?.all Order.leavesAlone = true) :
    x.Undisturbed c m f := by
  have always : ∀ q, m + 1 ≤ q → (x.run q).order?.all Order.leavesAlone = true :=
    run_of_halted (P := fun y => y.order?.all Order.leavesAlone = true)
      (Option.isNone_iff_eq_none.mp ended) early checked
  have leaves : ∀ q, m < q → ∀ o, (x.run q).order? = some o → o.leavesAlone = true := by
    intro q after o next
    have all := always q after
    rwa [next] at all
  refine ⟨fun q after _ performs => ?_, fun q after _ performs => ?_, fun q after _ performs => ?_⟩
  · exact nomatch leaves q after _ performs.order?
  · exact nomatch leaves q after _ performs.order?
  · exact nomatch leaves q after _ performs.order?

omit [Traced Obj] in
theorem plan_begins {roots : List RootSet} (asks : x.order?.bind Order.roots? = some roots)
    (idle : x.world.heap.collecting = false) : x.Begins roots := by
  obtain ⟨o, next, is⟩ := Option.bind_eq_some_iff.mp asks
  unfold order? at next
  split at next
  · rename_i k orders at_code
    obtain ⟨rest, rfl⟩ := List.head?_eq_some_iff.mp next
    unfold Order.roots? at is
    split at is
    · obtain rfl := Option.some.inj is
      exact ⟨⟨k, _, plan_requests at_code⟩, idle⟩
    · exact nomatch is
  · exact nomatch next

theorem plan_alone {b : Nat}
    (only : ∀ l < f, m ≤ l → ((x.run l).order?.bind Order.roots?).isSome = true → l = b) :
    ∀ l, m ≤ l → l < f → ∀ others, (x.run l).Begins others → l = b := by
  rintro l after before others ⟨⟨_, _, requests⟩, _⟩
  exact only l before after (by rw [requests.order?]; rfl)

end Plan

def clearedTimer :
    Execution (plan fun _ : Call (List Handle) => ([] : List (Order (List Handle) Manual))) :=
  planned {} _ [.command (.createContext none), .command (.allocate []),
    .command (.setTimer ⟨1⟩ .once (.object ⟨0, 0⟩) .zero []), .command (.clearTimer ⟨1⟩ ⟨1⟩),
    .procedure (.collect [.bridge]), .procedure (.collect [.bridge])]

/-- The callback survives the first of them only. -/
theorem cleared_timer_lasts_one_collection :
    (clearedTimer.run 11).world.heap.alive ⟨0, 0⟩ = true ∧
      (∀ n, 11 ≤ n → ¬ (clearedTimer.run n).world.Holds ⟨1⟩ (.timer keptTimer)) ∧
      (clearedTimer.run 20).world.heap.alive ⟨0, 0⟩ = false := by
  have blank : clearedTimer.Blank := ⟨rfl, rfl⟩
  have abandons : clearedTimer.Abandons ⟨1⟩ (.timer keptTimer) 3 :=
    ⟨by decide +kernel, by decide +kernel, by decide +kernel⟩
  have round : clearedTimer.Round [.bridge] 3 4 11 :=
    ⟨by decide +kernel, by decide, by decide, plan_begins (by decide +kernel) (by decide +kernel),
      plan_alone (by decide +kernel), by decide +kernel⟩
  have undisturbed : clearedTimer.Undisturbed ⟨1⟩ 3 11 :=
    plan_undisturbed (k := 30) (by decide +kernel) (by decide) (by decide +kernel)
  obtain ⟨survives, released, _⟩ := abandoned_entry_lasts_one_collection
    ⟨_, _, _, 1024, rfl, rfl⟩ blank abandons round List.mem_cons_self undisturbed
  exact ⟨survives _ (Or.inl rfl) (by decide +kernel), released, by decide +kernel⟩

def toldByHand :
    Execution (plan fun _ : Call (List Handle) => ([] : List (Order (List Handle) Manual))) :=
  planned {} _ [.command (.createContext none), .command (.allocate []),
    .command (.setTimer ⟨1⟩ .once (.object ⟨0, 0⟩) .zero []), .command (.clearTimer ⟨1⟩ ⟨1⟩),
    .command (.reclaim ⟨1⟩), .procedure (.collect [.bridge])]

def lateTimer : Entry TimerId Timer :=
  ⟨⟨7⟩, 0, { id := ⟨7⟩, context := ⟨1⟩, callback := .object ⟨0, 0⟩, mode := .once }⟩

/-- A timer is installed and cleared in a context that the bridge has disposed and released. -/
def afterRelease :
    Execution (plan fun _ : Call (List Handle) => ([] : List (Order (List Handle) Manual))) :=
  planned {} _ [.command (.createContext none), .command (.dispose ⟨1⟩),
    .procedure (.collect [.bridge]), .command (.allocate []),
    .command (.installTimer ⟨1⟩ ⟨7⟩ lateTimer.item), .command (.clearTimer ⟨1⟩ ⟨7⟩),
    .procedure (.collect [.bridge])]

/-- In both runs the callback dies in the first collection after its timer was abandoned. -/
theorem abandoned_entry_dies_at_once :
    (toldByHand.Fresh ∧ toldByHand.Blank ∧ (∀ n, (toldByHand.run n).Rooted) ∧
      toldByHand.Abandons ⟨1⟩ (.timer keptTimer) 3 ∧ toldByHand.Round [.bridge] 3 5 15 ∧
      (toldByHand.run 3).world.heap.alive ⟨0, 0⟩ = true ∧
      (toldByHand.run 15).world.heap.alive ⟨0, 0⟩ = false) ∧
    afterRelease.Fresh ∧ afterRelease.Blank ∧ (∀ n, (afterRelease.run n).Rooted) ∧
      (afterRelease.run 11).world.Active ⟨1⟩ (.timer lateTimer) ∧
      ¬ (afterRelease.run 12).world.Active ⟨1⟩ (.timer lateTimer) ∧
      (∃ a ∈ (afterRelease.run 12).world.context? ⟨1⟩, a.Holds (.timer lateTimer)) ∧
      afterRelease.Round [.bridge] 11 12 22 ∧
      (afterRelease.run 11).world.heap.alive ⟨0, 0⟩ = true ∧
      (afterRelease.run 22).world.heap.alive ⟨0, 0⟩ = false := by
  have rooted_by_hand : ∀ n, (toldByHand.run n).Rooted :=
    plan_rooted_run (m := 30) (by decide +kernel) (by decide +kernel)
  have rooted_after : ∀ n, (afterRelease.run n).Rooted :=
    plan_rooted_run (m := 30) (by decide +kernel) (by decide +kernel)
  have abandons : toldByHand.Abandons ⟨1⟩ (.timer keptTimer) 3 :=
    ⟨by decide +kernel, by decide +kernel, by decide +kernel⟩
  have round_by_hand : toldByHand.Round [.bridge] 3 5 15 :=
    ⟨by decide +kernel, by decide, by decide, plan_begins (by decide +kernel) (by decide +kernel),
      plan_alone (by decide +kernel), by decide +kernel⟩
  have round_after : afterRelease.Round [.bridge] 11 12 22 :=
    ⟨by decide +kernel, by decide, by decide, plan_begins (by decide +kernel) (by decide +kernel),
      plan_alone (by decide +kernel), by decide +kernel⟩
  refine ⟨⟨⟨_, _, _, 1024, rfl, rfl⟩, ⟨rfl, rfl⟩, rooted_by_hand, abandons, round_by_hand, ?_, ?_⟩,
    ⟨_, _, _, 1024, rfl, rfl⟩, ⟨rfl, rfl⟩, rooted_after, ?_, ?_, ?_, round_after, ?_, ?_⟩
  all_goals decide +kernel

end Execution

end HostBridge
