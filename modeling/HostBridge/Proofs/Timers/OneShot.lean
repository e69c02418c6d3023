import HostBridge.Proofs.Timers.Retirement
/-!
# How often a one-shot timer fires

A one-shot timer stays active until its fire is over, so that another fire finds it as long as its
callback or the drain that follows goes on. Unless there is such a fire its callback is called at
most once.
-/

namespace HostBridge.Execution

variable {Obj τ : Type} [Facility τ] {E : Embedder Obj τ} [Traced Obj]

def InvokedOnce (x : Execution E) (c : ContextId) (e : Entry TimerId Timer) (n : Nat) : Prop :=
  ∀ l < n, ∀ m < n, (x.run l).Invokes c e → (x.run m).Invokes c e → l = m

/-- Before the `n`th state of the run the timer fires while a fire of it goes on, both without an
error. -/
def Refires (x : Execution E) (c : ContextId) (e : Entry TimerId Timer) (n : Nat) : Prop :=
  ∃ m < n, ∃ l < m, (x.run l).Fires c e none ∧ (x.run l).Unfinished (m - l) ∧
    (x.run m).Fires c e none

variable {x : Execution E} {c : ContextId} {e : Entry TimerId Timer}

/-- A one-shot timer that has fired is active only while its fire goes on. -/
theorem Fires.unfinished {l m : Nat} {error : Option String} (blank : x.Blank)
    (once : e.item.isOneShot = true) (fires : (x.run l).Fires c e error) (le : l ≤ m)
    (active : e ∈ ((x.run m).world.timers c).active) : (x.run l).Unfinished (m - l) := by
  by_contra past
  obtain ⟨n, before, finishes⟩ := exists_finishesAt past
  obtain ⟨n', rfl, _⟩ := finishes.exists_succ
  have gone := gone_mono (fires.gone blank once finishes) (show l + (n' + 1) ≤ m by omega)
  exact gone.inactive active

/-- The callback of a one-shot timer is called at most once, unless the timer fires while a fire of
it goes on. -/
theorem invoked_once_iff (blank : x.Blank) {m : Nat} (active : e ∈ ((x.run m).world.timers c).active)
    (once : e.item.isOneShot = true) (n : Nat) :
    x.InvokedOnce c e (n + 1) ↔ ¬ x.Refires c e n := by
  constructor
  · intro invoked refires
    obtain ⟨k, lt, l, earlier, first, _, second⟩ := refires
    have same := invoked (l + 1) (by omega) (k + 1) (by omega) first.invokes second.invokes
    omega
  · intro single
    have not_lt : ∀ l < n, ∀ k < n, (x.run l).Fires c e none → (x.run k).Fires c e none →
        ¬ l < k := by
      intro l _ k lt first second earlier
      have still := first.unfinished blank once (Nat.le_of_lt earlier) second.active
      exact single ⟨k, lt, l, earlier, first, still, second⟩
    intro l' l_lt k' k_lt here there
    obtain ⟨l, rfl, first⟩ := (invokes_iff blank active).mp here
    obtain ⟨k, rfl, second⟩ := (invokes_iff blank active).mp there
    have one := not_lt l (by omega) k (by omega) first second
    have other := not_lt k (by omega) l (by omega) second first
    omega

def startsFire (x : Execution E) : Bool :=
  match x.stack with
  | .task (.fire ..) :: _ => true
  | _ => false

omit [Traced Obj] in
theorem Fires.startsFire {error : Option String} (fires : x.Fires c e error) :
    x.startsFire = true := by
  obtain ⟨rest, top⟩ := fires.next
  rw [Execution.startsFire, top]

theorem fired_once_is_invoked_once :
    (fireSeven (onCallback [])).InvokedOnce ⟨1⟩ ⟨⟨7⟩, 0, ownTimer ⟨7⟩ .once⟩ 16 ∧
      ((fireSeven (onCallback [])).run 4).Invokes ⟨1⟩ ⟨⟨7⟩, 0, ownTimer ⟨7⟩ .once⟩ := by
  have active : (⟨⟨7⟩, 0, ownTimer ⟨7⟩ .once⟩ : Entry TimerId Timer) ∈
      (((fireSeven (onCallback [])).run 3).world.timers ⟨1⟩).active := by decide +kernel
  have only : ∀ m < 15, ((fireSeven (onCallback [])).run m).startsFire = true → m = 3 := by
    decide +kernel
  refine ⟨(invoked_once_iff ⟨rfl, rfl⟩ active rfl 15).mpr ?_, ⟨_, rfl⟩⟩
  rintro ⟨m, lt, l, earlier, first, _, second⟩
  have one := only l (by omega) first.startsFire
  have other := only m lt second.startsFire
  omega

def jobFires : Call (List Handle) → List (Order (List Handle) Manual)
  | .job c => [.procedure (.fire c ⟨7⟩ none)]
  | _ => []

theorem fired_in_drain_is_invoked_twice :
    (fireSeven jobFires).Blank ∧
      ¬ (fireSeven jobFires).InvokedOnce ⟨1⟩ ⟨⟨7⟩, 0, ownTimer ⟨7⟩ .once⟩ 12 := by
  refine ⟨⟨rfl, rfl⟩, ?_⟩
  intro once
  have same := once 4 (by decide) 11 (by decide) ⟨_, rfl⟩ ⟨_, rfl⟩
  exact nomatch same

end HostBridge.Execution
