import HostBridge.Proofs.Timers.Orderly
import HostBridge.Proofs.Timers.Retiming
/-!
# Timers and what the facility times for them

Where timers are only set, and fires come only from the facility by way of the queue, a context and
the facility stay in step: what is scheduled is active, and what is active is scheduled or it has a
one-shot fire under way. They fall out of step only if an id is given again while it is in use.
-/

namespace HostBridge

variable {Obj τ : Type}

def Item.approaches (t : Target) : Item Obj → Prop
  | task (.dispatch f) => f.target = t
  | task (.fire c id _) => (⟨c, id⟩ : Target) = t
  | _ => False

namespace Execution

section

variable [Facility τ] {E : Embedder Obj τ} [Traced Obj] {x y : Execution E} {c : ContextId}
  {t : Target} {n : Nat}

/-- A fire of the target waits in the queue, or a pump that is in progress has not delivered it. -/
def Approaches (x : Execution E) (t : Target) : Prop :=
  (∃ f ∈ x.world.queue.waiting, f.target = t) ∨ ∃ i ∈ x.stack, i.approaches t

/-- A fire of the target has found a one-shot timer, and is not over. -/
def Retires (x : Execution E) (t : Target) : Prop :=
  .task (.retire t.context t.timer) ∈ x.stack

def Posts (x : Execution E) (f : Fire) : Prop :=
  ∃ k, x.Performs k ∧ f ∈ (k.perform x.world).signals.filterMap Signal.posted?

theorem Rewrites.approaches (rewrites : Rewrites x y) (indirect : x.Indirect)
    (later : y.Approaches t) : x.Approaches t ∨ ∃ f, x.Posts f ∧ f.target = t := by
  have of_queue : y.world.queue = x.world.queue → (∃ f ∈ y.world.queue.waiting, f.target = t) →
      x.Approaches t := fun same queued => Or.inl (same ▸ queued)
  rcases later with queued | ⟨i, mem, approaches⟩
  · cases rewrites with
    | idle _ _ world | halted _ _ world | called _ _ world =>
      exact Or.inl (of_queue (congrArg World.queue world) queued)
    | @performed k performs _ world =>
      obtain ⟨f, mem, named⟩ := queued
      rw [world, k.perform_waiting] at mem
      rcases List.mem_append.mp mem with old | new
      · exact Or.inl (Or.inl ⟨f, old, named⟩)
      · exact Or.inr ⟨f, ⟨k, performs, new⟩, named⟩
    | @began k p resume _ _ world =>
      by_cases pump : p = .pump
      · obtain ⟨f, mem, _⟩ := queued
        rw [world, pump] at mem
        cases mem
      · have same := congrArg Prod.snd (Procedure.start_host pump x.world)
        exact Or.inl (of_queue (world ▸ same) queued)
    | @returned k r p rest _ _ world =>
      have same := congrArg Prod.snd (Call.resume_host E.types x.world p k r)
      exact Or.inl (of_queue (world ▸ same) queued)
    | @worked u p rest _ _ _ world =>
      have same := congrArg Prod.snd
        (Task.run_host u ⟨E.types, E.alive x.state x.world.heap⟩ x.world p)
      exact Or.inl (of_queue (world ▸ same) queued)
  · left
    rcases rewrites.mem_cases mem with old | ⟨u, rfl, brings⟩ | ⟨k, rfl, _⟩
    · exact Or.inr ⟨i, old, approaches⟩
    · cases brings with
      | dispatch requests => exact absurd requests (indirect.no_dispatch _ _ _)
      | fire requests => exact absurd requests (indirect.no_fire _ _ _ _ _)
      | @pumped k f resume _ queued => exact Or.inl ⟨f, queued, approaches⟩
      | @fireOf f dispatches =>
        obtain ⟨rest, top⟩ := dispatches
        exact Or.inr ⟨.task (.dispatch f), top ▸ List.mem_cons_self, approaches⟩
      | _ => exact approaches.elim
    · exact approaches.elim

theorem Rewrites.retires (rewrites : Rewrites x y) (later : y.Retires t) : x.Retires t ∨
    ∃ e error, x.Fires t.context e error ∧ e.key = t.timer ∧ e.item.isOneShot = true := by
  rcases rewrites.mem_cases later with old | ⟨u, same, brings⟩ | ⟨k, same, _⟩
  · exact Or.inl old
  · obtain rfl := Item.task.inj same
    generalize named : t.timer = id at brings
    cases brings with
    | retire fires once => exact Or.inr ⟨_, _, fires, rfl, once⟩
  · exact nomatch same

omit [Traced Obj] in
theorem Fires.approaches {e : Entry TimerId Timer} {error : Option String}
    (fires : x.Fires t.context e error) (named : e.key = t.timer) : x.Approaches t := by
  obtain ⟨rest, top⟩ := fires.next
  rw [named] at top
  exact Or.inr ⟨.task (.fire t.context t.timer error), top ▸ List.mem_cons_self, rfl⟩

/-- The id of the target is in use: a timer is active under it, or a fire of one is on its way or not
over. -/
def InUse (x : Execution E) (t : Target) : Prop :=
  (x.world.timers t.context).contains t.timer = true ∨ x.Approaches t ∨ x.Retires t

theorem Posts.told {f : Fire} (posts : (x.run n).Posts f) :
    (x.run n).history.countP (·.posts (·.target = f.target)) <
      (x.run (n + 1)).history.countP (·.posts (·.target = f.target)) := by
  obtain ⟨k, performs, mem⟩ := posts
  have counted : (x.run (n + 1)).history.countP (·.posts (·.target = f.target)) = _ :=
    performs.run_grows.posts rfl
  have positive : 0 < (((k.perform (x.run n).world).signals.filterMap Signal.posted?).countP
      fun g => g.target = f.target) := List.countP_pos_iff.mpr ⟨f, mem, decide_eq_true rfl⟩
  omega

end

variable {Obj : Type} {E : Embedder Obj Manual} [Traced Obj] {x y : Execution E} {c : ContextId}
  {t : Target} {n : Nat}

/-- The facility posts fires for scheduled targets only, and of one-shot timers only one. -/
theorem Posts.scheduled {f : Fire} (posts : (x.run n).Posts f)
    (distinct : (x.run n).world.facility.Distinct)
    (no_post : ∀ f, ¬ (x.run n).Performs (.post f)) :
    ∃ s, (x.run n).world.facility.get? f.target = some s ∧
      (x.run (n + 1)).world.facility.get? f.target = if s.repeats then some s else none := by
  obtain ⟨k, performs, mem⟩ := posts
  have world := performs.run_succ
  cases k with
  | act a =>
    have expires := Manual.expires_perform distinct a
    simp only [Command.perform, World.act, filterMap_posted] at mem
    rw [world]
    exact expires.scheduled f mem
  | post g => exact absurd performs (no_post g)
  | allocate | retain =>
    simp only [Command.perform] at mem
    split at mem <;> cases mem
  | dispose =>
    simp only [Command.perform] at mem
    split at mem
    · simp only [World.dispose, World.disposeContext, filterMap_cancelled] at mem
      cases mem
    · cases mem
  | close =>
    simp only [Command.perform, World.close, World.disposeEach_signals] at mem
    cases mem
  | disposeContext =>
    simp only [Command.perform, World.disposeContext, filterMap_cancelled] at mem
    cases mem
  | setTimer =>
    simp only [Command.perform, Command.setTimer_signals] at mem
    cases mem
  | clearTimer =>
    simp only [Command.perform, Command.clearTimerIn] at mem
    repeat' split at mem
    all_goals cases mem
  | installTimer | removeTimer | requestFrame | registerFrame | cancelFrame | trackUnhandled
  | trackHandled | reclaim =>
    simp only [Command.perform, Command.inContext] at mem
    split at mem <;> cases mem
  | write | setThreshold | listen | leave | createContext => cases mem

structure Paired (x : Execution E) (t : Target) : Prop where
  active : ∀ s, x.world.facility.get? t = some s →
    ∃ e, x.world.ready? t.context t.timer = some e ∧ s.Times e
  interval : ∀ e, x.world.ready? t.context t.timer = some e → e.item.mode = .repeating →
    ∃ s, x.world.facility.get? t = some s
  single : x.Approaches t → ∀ s, x.world.facility.get? t = some s → s.repeats = true
  spent : x.Retires t → x.world.facility.get? t = none

omit [Traced Obj] in
theorem Paired.spent_of_fires (paired : x.Paired t) {e : Entry TimerId Timer}
    {error : Option String} (fires : x.Fires t.context e error) (named : e.key = t.timer)
    (once : e.item.isOneShot = true) : x.world.facility.get? t = none := by
  have approaches := fires.approaches named
  cases timed : x.world.facility.get? t with
  | none => rfl
  | some s =>
    exfalso
    obtain ⟨d, ready, times⟩ := paired.active s timed
    have same : d = e := by
      have found := fires.ready
      rw [named, ready] at found
      exact Option.some.inj found
    have again := paired.single approaches s timed
    have mode : e.item.mode = .once := by simpa [Timer.isOneShot] using once
    rw [times.repeats, same, mode] at again
    cases again

theorem Paired.succ (timely : (x.run n).Timely) (paired : (x.run n).Paired t)
    (rewrites : Rewrites (x.run n) (x.run (n + 1)))
    (retimes : (x.run n).Retimes (x.run (n + 1)).world t) (indirect : (x.run n).Indirect)
    (no_post : ∀ f, ¬ (x.run n).Performs (.post f))
    (fresh : (x.run n).Gives t → ¬ (x.run n).InUse t) : (x.run (n + 1)).Paired t := by
  have spent : (x.run (n + 1)).Retires t → (x.run n).world.facility.get? t = none := by
    intro retires
    rcases rewrites.retires retires with earlier | ⟨e, error, fires, named, once⟩
    · exact paired.spent earlier
    · exact paired.spent_of_fires fires named once
  have single : (x.run (n + 1)).Approaches t → ∀ s,
      (x.run (n + 1)).world.facility.get? t = some s →
        (x.run n).Approaches t ∨ s.repeats = true := by
    intro approaches s timed
    rcases rewrites.approaches indirect approaches with earlier | ⟨f, posts, rfl⟩
    · exact Or.inl earlier
    · obtain ⟨s', _, after⟩ := posts.scheduled timely.distinct no_post
      rw [timed] at after
      split at after
      · rename_i again
        exact Or.inr (Option.some.inj after ▸ again)
      · exact nomatch after
  have idle : (x.run (n + 1)).world.facility.get? t = none →
      (∀ e, (x.run (n + 1)).world.ready? t.context t.timer = some e → e.item.mode ≠ .repeating) →
      (x.run (n + 1)).Paired t := by
    intro gone no_interval
    have not_timed : ∀ s, (x.run (n + 1)).world.facility.get? t ≠ some s := by simp [gone]
    exact ⟨fun s timed => absurd timed (not_timed s),
      fun e ready again => absurd again (no_interval e ready),
      fun _ s timed => absurd timed (not_timed s), fun _ => gone⟩
  cases retimes with
  | settles settles =>
    rcases settles with ⟨ready, timed⟩ | ⟨ready, timed⟩
    · constructor
      · rw [ready, timed]
        exact paired.active
      · rw [ready, timed]
        exact paired.interval
      · intro approaches s after
        rcases single approaches s after with earlier | again
        · exact paired.single earlier s (timed ▸ after)
        · exact again
      · rw [timed]
        exact spent
    · exact idle timed (by simp [ready])
  | @set e s gives ready timed times =>
    have free := fresh gives
    constructor
    · intro s' after
      obtain rfl := Option.some.inj (timed.symm.trans after)
      exact ⟨e, ready, times⟩
    · exact fun _ _ _ => ⟨s, timed⟩
    · intro approaches s' after
      rcases single approaches s' after with earlier | again
      · exact absurd (Or.inr (Or.inl earlier)) free
      · exact again
    · intro retires
      exfalso
      rcases rewrites.retires retires with earlier | ⟨e', error, fires, named, _⟩
      · exact free (Or.inr (Or.inr earlier))
      · exact free (Or.inr (Or.inl (fires.approaches named)))
  | @expired s once ready timed posted =>
    refine idle timed ?_
    intro e ready' again
    rw [ready] at ready'
    obtain ⟨d, found, times⟩ := paired.active s once.1
    obtain rfl := Option.some.inj (found.symm.trans ready')
    have repeats := times.repeats
    rw [once.2, again] at repeats
    cases repeats
  | retired retires ready timed =>
    obtain ⟨rest, top⟩ := retires
    refine idle ?_ (by simp [ready])
    rw [timed]
    apply paired.spent
    rw [Retires, top]
    exact List.mem_cons_self

end Execution

end HostBridge
