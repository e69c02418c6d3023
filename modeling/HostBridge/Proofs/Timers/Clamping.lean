import HostBridge.Proofs.Execution.Plan
import HostBridge.Proofs.Timers.Batches
import HostBridge.Proofs.Timers.Nesting
/-!
# Clamped delays

A timer that is set in a callback is one level deeper than the timer that has called it, up to the
largest level, and only timers deeper than the configured level have a least delay. The timeout that
results is the one that the facility is told. So the timers of a chain, each set by the callback of
the one before, are numbered by their levels.
-/

namespace HostBridge

theorem Context.nextLevel_toNat (a : Context) :
    a.nextLevel.toNat = min (a.level.toNat + 1) (2 ^ 32 - 1) := by
  have bound := a.level.toNat_lt
  have sum : (a.level + 1).toNat = (a.level.toNat + 1) % 2 ^ 32 := UInt32.toNat_add _ _
  rw [nextLevel]
  split
  · rename_i wraps
    rw [wraps] at sum
    have zero : (0 : UInt32).toNat = 0 := rfl
    omega
  · rename_i more
    have positive : (a.level + 1).toNat ≠ 0 := fun zero => more (UInt32.toNat_inj.mp zero)
    omega

theorem Config.clamp_millis (config : Config) (delay : Duration) (level : UInt32) :
    (config.clamp delay level).millis =
      if config.maxLevel < level then max delay.millis config.minTimeout.millis
      else delay.millis := by
  unfold clamp
  split <;> rfl

variable {Obj τ : Type} [Facility τ] {E : Embedder Obj τ} [Traced Obj]

namespace Execution

structure SetsTimer (x : Execution E) (n : Nat) (c : ContextId) (e : Entry TimerId Timer)
    (delay : Duration) : Prop where
  sets : ∃ mode callback arguments,
    (x.run n).Performs (.setTimer c mode callback delay arguments)
  installed : e ∈ ((x.run (n + 1)).world.timers c).active
  fresh : e ∉ ((x.run n).world.timers c).active

structure ClampedAt (x : Execution E) (n : Nat) (c : ContextId) (a : Context) (v : UInt32)
    (e : Entry TimerId Timer) (delay : Duration) : Prop where
  level : e.item.level.toNat = min (v.toNat + 1) (2 ^ 32 - 1)
  timeout : e.item.timeout.millis = if a.config.maxLevel < e.item.level then
    max delay.millis a.config.minTimeout.millis else delay.millis
  scheduled : (x.run (n + 1)).world.facility = Facility.schedule (x.run n).world.facility
    ⟨c, e.key⟩ e.item.timeout (e.item.mode == .repeating)
  told : (x.run (n + 1)).signals = (x.run n).signals ++
    [.scheduled ⟨c, e.key⟩ e.item.timeout (e.item.mode == .repeating)]

variable {x : Execution E} {c : ContextId} {n : Nat} {e : Entry TimerId Timer} {delay : Duration}

theorem SetsTimer.newTimer (creates : x.SetsTimer n c e delay) :
    ∃ a mode callback arguments, (x.run n).world.context? c = some a ∧ a.valid = true ∧
      (x.run n).Performs (.setTimer c mode callback delay arguments) ∧
      e.item = a.newTimer callback delay arguments mode ∧ e.key = e.item.id := by
  obtain ⟨mode, callback, arguments, performs⟩ := creates.sets
  have installed := creates.installed
  have same : (x.run (n + 1)).world.context? c =
      (Command.setTimerIn (x.run n).world c mode callback delay arguments).world.context? c :=
    congrArg (·.context? c) performs.run_succ
  cases found : (x.run n).world.context? c with
  | none =>
    simp only [Command.setTimerIn, found] at same
    rw [World.timers, same] at installed
    cases installed
  | some a =>
    rw [Command.setTimer_context? found] at same
    rw [World.timers_of_context? same, Context.setTimer] at installed
    have fresh := creates.fresh
    rw [World.timers_of_context? found] at fresh
    cases valid : a.valid with
    | false =>
      rw [valid] at installed
      exact absurd installed fresh
    | true =>
      rw [valid] at installed
      rcases Registry.mem_accept installed with old | ⟨_, rfl⟩
      · exact absurd old fresh
      · exact ⟨a, mode, callback, arguments, rfl, valid, performs, rfl, rfl⟩

theorem SetsTimer.clampedAt (blank : x.Blank) (creates : x.SetsTimer n c e delay) :
    ∃ a v, (x.run n).world.context? c = some a ∧ x.NestedIn c n v ∧
      x.ClampedAt n c a v e delay := by
  obtain ⟨a, mode, callback, arguments, found, valid, performs, item, key⟩ := creates.newTimer
  have nested := nestedIn_run (c := c) blank fun before => performs.not_atTask _
  rw [World.level_of_context? found] at nested
  have effect : Command.perform (x.run n).world (.setTimer c mode callback delay arguments) =
      ⟨e.item.id, ((x.run n).world.update c (·.setTimer e.item)).schedule ⟨c, e.item.id⟩
        e.item.timeout (mode == .repeating),
        [.scheduled ⟨c, e.item.id⟩ e.item.timeout (mode == .repeating)]⟩ := by
    simp only [Command.perform, Command.setTimerIn, found, valid, item]
    rfl
  have told := performs.run_grows.signals rfl
  have world := performs.run_succ
  rw [effect] at told world
  refine ⟨a, a.level, found, nested, ?_, ?_, ?_, ?_⟩
  · rw [item]
    exact a.nextLevel_toNat
  · rw [item]
    exact a.config.clamp_millis _ _
  · rw [world, key, item]
    rfl
  · rw [told, key, item]
    rfl

section

variable {j l m : Nat} {v : UInt32} {d : Entry TimerId Timer}

theorem InCallback.of_le (progress : x.InCallback c e l n) (after : l < m) (le : m ≤ n) :
    x.InCallback c e l m :=
  ⟨progress.fires, after, progress.unfinished.of_le (by omega)⟩

/-- The callback of the timer that has fired at `l` is done with at `m`, and at `n` the jobs that
follow it are being drained. -/
structure DrainsAfter (x : Execution E) (c : ContextId) (e : Entry TimerId Timer) (l m n : Nat) :
    Prop where
  fires : (x.run l).Fires c e none
  after : l < m
  returns : (x.run (l + 1)).FinishesAt (m - (l + 1))
  lt : m < n
  drains : (x.run (m + 1)).Unfinished (n - (m + 1))

/-- When a callback has returned the level is restored, and then the jobs are drained. -/
theorem Fires.returned (fires : (x.run l).Fires c e none) (after : l < m)
    (returns : (x.run (l + 1)).FinishesAt (m - (l + 1))) :
    ∃ before rest above, (x.run l).stack = .task (.fire c e.key none) :: rest ∧
      (x.run (l + 1)).stack = .task (.call (Task.timerCall c e)) ::
        .task (.setLevel c before) :: .task (.drain c) :: (above ++ rest) ∧
      (x.run m).stack = .task (.setLevel c before) :: .task (.drain c) :: (above ++ rest) ∧
      (x.run (m + 1)).stack = .task (.drain c) :: (above ++ rest) := by
  obtain ⟨before, rest, top, stack, _⟩ := fires.stack (x.run_rewrites l)
  have called : (x.run (l + 1)).stack = .task (.call (Task.timerCall c e)) ::
      .task (.setLevel c before) :: .task (.drain c) ::
        ((Task.retirement c e).map .task ++ rest) := by
    rw [stack, Task.fireTasks_eq]
    simp [Task.firing]
  have returned := returns.stack called
  rw [← run_add, Nat.add_sub_cancel' after] at returned
  obtain ⟨p, later, _⟩ := (x.run_rewrites m).of_task returned fun k same => by cases same
  exact ⟨before, rest, _, top, called, returned, later⟩

theorem DrainsAfter.unfinished (drains : x.DrainsAfter c e l m n) :
    (x.run l).Unfinished (n - l) := by
  have after := drains.after
  obtain ⟨before, rest, above, top, called, returned, later⟩ :=
    drains.fires.returned after drains.returns
  have lengths := congrArg List.length called
  have lengths' := congrArg List.length later
  simp only [List.length_cons, List.length_append] at lengths lengths'
  intro i le
  rw [← run_add, top, List.length_cons]
  rcases Nat.eq_zero_or_pos i with rfl | pos
  · exact Nat.le_of_eq (congrArg List.length top).symm
  · rcases Nat.lt_trichotomy (l + i) m with early | at_return | late
    · have long := drains.returns.1 (l + i - (l + 1)) (by omega)
      rw [← run_add, Nat.add_sub_cancel' (by omega)] at long
      omega
    · rw [at_return, returned]
      simp only [List.length_cons, List.length_append]
      omega
    · have long := drains.drains (l + i - (m + 1)) (by omega)
      rw [← run_add, Nat.add_sub_cancel' (by omega)] at long
      omega

theorem DrainsAfter.called (drains : x.DrainsAfter c e l m n) (progress : x.InCallback c d j n) :
    j < l ∨ m ≤ j := by
  by_contra neither
  obtain ⟨after, before⟩ := not_or.mp neither
  have returns := drains.returns
  have lt := drains.lt
  obtain ⟨_, _, _, _, _, returned, _⟩ := drains.fires.returned drains.after returns
  have long := progress.unfinished (m - (j + 1)) (by omega)
  rw [← run_add, Nat.add_sub_cancel' (by omega)] at long
  have short := returns.2
  rw [← run_add, Nat.add_sub_cancel' (by omega)] at short
  rcases Nat.lt_or_eq_of_le (by omega : j + 1 ≤ m) with within | rfl
  · have inner := returns.1 (j + 1 - (l + 1)) (by omega)
    rw [← run_add, Nat.add_sub_cancel' (by omega)] at inner
    omega
  · obtain ⟨_, _, called⟩ := progress.fires.saves
    cases (List.cons.inj (called.symm.trans returned)).1

/-- So jobs that no further callback has called are nested as deep as the fire, and after an
outermost callback not at all. -/
theorem DrainsAfter.nestedIn (drains : x.DrainsAfter c e l m n)
    (none_called : ∀ i d, m ≤ i → ¬ x.InCallback c d i n) (nested : x.NestedIn c l v) :
    x.NestedIn c n v := by
  have earlier : ∀ i d, x.InCallback c d i n → i < l := by
    intro i d progress
    rcases drains.called progress with before | after
    · exact before
    · exact absurd progress (none_called i d after)
  have le : l ≤ n := Nat.le_of_lt (Nat.lt_trans drains.after drains.lt)
  cases nested with
  | outside no_callback =>
    refine .outside fun i d progress => no_callback i d ?_
    exact progress.of_le (earlier i d progress) le
  | @inside d i innermost =>
    refine .inside ⟨⟨innermost.fires, Nat.lt_of_lt_of_le innermost.lt le, ?_⟩, ?_⟩
    · intro k within
      by_cases before : k ≤ l - (i + 1)
      · exact innermost.unfinished k before
      · have lt := innermost.lt
        have long := innermost.unfinished (l - (i + 1)) (Nat.le_refl _)
        have longer := drains.unfinished (i + 1 + k - l) (by omega)
        rw [← run_add, Nat.add_sub_cancel' (by omega)] at long longer
        rw [← run_add]
        exact Nat.le_trans long longer
    · intro k d' progress
      exact innermost.last k d' (progress.of_le (earlier k d' progress) le)

end

/-- The `i`th timer of a chain is set at `n` without a delay: the first outside of callbacks and
each of the others by the callback of the one before. -/
inductive Chained (x : Execution E) (c : ContextId) : Nat → Nat → Entry TimerId Timer → Prop
  | first {n : Nat} {e : Entry TimerId Timer} (creates : x.SetsTimer n c e .zero)
      (outside : ∀ l d, ¬ x.InCallback c d l n) : Chained x c 1 n e
  | next {i l m n : Nat} {d e : Entry TimerId Timer} (chained : Chained x c i m d)
      (calls : x.Innermost c d l n) (creates : x.SetsTimer n c e .zero) : Chained x c (i + 1) n e

theorem Chained.level {i : Nat} (chained : x.Chained c i n e) (blank : x.Blank) :
    e.item.level.toNat = min i (2 ^ 32 - 1) := by
  induction chained with
  | first creates outside =>
    obtain ⟨a, v, _, nested, created⟩ := creates.clampedAt blank
    obtain rfl := nested.unique (.outside outside)
    exact created.level
  | @next i _ _ _ _ _ _ calls creates ih =>
    obtain ⟨a, v, _, nested, created⟩ := creates.clampedAt blank
    obtain rfl := nested.unique (.inside calls)
    rw [created.level, ih]
    omega

/-- The timers of a chain that are deeper than the largest level wait for the least delay, and the
others do not wait. -/
theorem Chained.timeout {i m : Nat} {a : Context} (chained : x.Chained c i n e) (blank : x.Blank)
    (found : (x.run m).world.context? c = some a) : e.item.timeout.millis =
      if a.config.maxLevel.toNat < min i (2 ^ 32 - 1) then a.config.minTimeout.millis else 0 := by
  have creates : x.SetsTimer n c e .zero := by cases chained <;> assumption
  obtain ⟨b, v, there, _, created⟩ := creates.clampedAt blank
  rw [created.timeout, ← chained.level blank, config_eq found there]
  simp [UInt32.lt_iff_toNat_lt, Duration.zero]

end Execution

end HostBridge
