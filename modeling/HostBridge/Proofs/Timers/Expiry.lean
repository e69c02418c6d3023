import HostBridge.Host.Manual
import HostBridge.Proofs.Timers.Setting
/-!
# How often timers expire

The manual facility posts a fire for a timer that is scheduled, and schedules a one-shot timer no
more when it has posted its fire. So for an id that was never given to an interval no more fires are
posted than one-shot timers were set.
-/

namespace HostBridge

variable {Obj : Type}

namespace Manual

def pending (m : Manual) (t : Target) : Nat := m.scheduled.countP (·.target = t)

def Repeats (m : Manual) (t : Target) : Prop := ∃ s ∈ m.scheduled, s.target = t ∧ s.repeats = true

structure Spends (m m' : Manual) (fires : List Fire) (t : Target) : Prop where
  repeats : m'.Repeats t → m.Repeats t
  once : ¬ m.Repeats t → fires.countP (·.target = t) + m'.pending t ≤ m.pending t

variable {m m' : Manual} {t : Target}

namespace Spends

theorem refl (m : Manual) (t : Target) : m.Spends m [] t :=
  ⟨id, fun _ => Nat.le_of_eq (by rw [List.countP_nil, Nat.zero_add])⟩

theorem trans {m'' : Manual} {fires later : List Fire} (first : m.Spends m' fires t)
    (second : m'.Spends m'' later t) : m.Spends m'' (fires ++ later) t := by
  constructor
  · exact fun repeats => first.repeats (second.repeats repeats)
  · intro single
    have one := first.once single
    have other := second.once fun repeats => single (first.repeats repeats)
    rw [List.countP_append]
    omega

theorem cancel (m : Manual) (t' t : Target) : m.Spends (m.cancel t') [] t := by
  constructor
  · rintro ⟨s, mem, same⟩
    exact ⟨s, List.mem_of_mem_eraseP mem, same⟩
  · intro _
    rw [List.countP_nil, Nat.zero_add]
    exact List.eraseP_sublist.countP_le

theorem expire (m : Manual) (f : Fire) (t : Target) :
    m.Spends (m.expire f).1 (m.expire f).2 t := by
  cases found : m.get? f.target with
  | none =>
    simp only [Manual.expire, found]
    exact .refl m t
  | some s =>
    have mem : s ∈ m.scheduled := List.mem_of_find?_eq_some found
    have named : s.target = f.target := by simpa using List.find?_some found
    cases repeats : s.repeats with
    | true =>
      simp only [Manual.expire, found, repeats, if_true]
      refine ⟨id, ?_⟩
      intro single
      have other : f.target ≠ t := fun same => single ⟨s, mem, named.trans same, repeats⟩
      simp only [List.countP_singleton, decide_eq_true_eq, if_neg other, Nat.zero_add]
      exact Nat.le_refl _
    | false =>
      simp only [Manual.expire, found, repeats, Bool.false_eq_true, if_false]
      refine ⟨(Spends.cancel m f.target t).repeats, ?_⟩
      intro _
      simp only [List.countP_singleton, decide_eq_true_eq]
      by_cases same : f.target = t
      · obtain ⟨a, before, behind, _, of_target, scheduled, erased⟩ :=
          List.exists_of_eraseP (p := fun s => decide (s.target = f.target)) mem (by simp [named])
        have gone : a.target = t := by simpa [same] using of_target
        rw [if_pos same, pending, pending, Manual.cancel, erased, scheduled]
        simp only [List.countP_append, List.countP_cons, gone, decide_true, if_true]
        omega
      · rw [if_neg same, Nat.zero_add]
        exact List.eraseP_sublist.countP_le

theorem expireEach (m : Manual) (ts : List Target) (t : Target) :
    m.Spends (m.expireEach ts).1 (m.expireEach ts).2 t := by
  induction ts generalizing m with
  | nil => exact .refl m t
  | cons t' ts ih => exact (expire m ⟨t', none⟩ t).trans (ih _)

end Spends

theorem repeats_of_schedule {t' : Target} {delay : Duration} {repeats : Bool}
    (scheduled : (m.schedule t' delay repeats).Repeats t) :
    m.Repeats t ∨ t = t' ∧ repeats = true := by
  obtain ⟨s, mem, rfl, again⟩ := scheduled
  unfold schedule at mem
  split at mem
  · obtain ⟨s', mem', rfl⟩ := List.mem_map.mp mem
    split at again
    · rename_i same
      exact Or.inr ⟨by rw [if_pos same], again⟩
    · rename_i other
      exact Or.inl ⟨s', mem', by rw [if_neg other], again⟩
  · rcases List.mem_append.mp mem with old | new
    · exact Or.inl ⟨s, old, rfl, again⟩
    · obtain rfl := List.mem_singleton.mp new
      exact Or.inr ⟨rfl, again⟩

theorem pending_schedule_le (m : Manual) (t' t : Target) (delay : Duration) (repeats : Bool) :
    (m.schedule t' delay repeats).pending t ≤ m.pending t + if t' = t then 1 else 0 := by
  unfold schedule
  split
  · have kept : ∀ s : Scheduled, (if s.target = t' then ⟨t', delay, repeats⟩ else s).target =
        s.target := by
      intro s
      split
      · rename_i same
        exact same.symm
      · rfl
    have same : (Manual.mk (m.scheduled.map fun s =>
        if s.target = t' then ⟨t', delay, repeats⟩ else s)).pending t = m.pending t := by
      simp only [pending, List.countP_map, Function.comp_def, kept]
    rw [same]
    exact Nat.le_add_right _ _
  · simp only [pending, List.countP_append, List.countP_singleton, decide_eq_true_eq]
    exact Nat.le_refl _

end Manual

namespace World

theorem cancel_spends (w : World Obj Manual) (ts : List Target) (t : Target) :
    w.facility.Spends (ts.foldl World.cancel w).facility [] t := by
  induction ts generalizing w with
  | nil => exact .refl _ t
  | cons t' ts ih => exact (Manual.Spends.cancel w.facility t' t).trans (ih (w.cancel t'))

theorem disposeContext_spends (w : World Obj Manual) (c : ContextId) (t : Target) :
    w.facility.Spends (w.disposeContext c).1.facility [] t :=
  cancel_spends (w.update c Context.dispose) (w.timed c) t

theorem disposeEach_spends (w : World Obj Manual) (cs : List ContextId) (t : Target) :
    w.facility.Spends (w.disposeEach cs).1.facility [] t := by
  induction cs generalizing w with
  | nil => exact .refl _ t
  | cons c cs ih => exact (w.disposeContext_spends c t).trans (ih _)

end World

namespace Command

theorem perform_spends {k : Command Obj Manual}
    (no_timer : ∀ c mode callback delay arguments, k ≠ .setTimer c mode callback delay arguments)
    (no_post : ∀ f, k ≠ .post f) (w : World Obj Manual) (t : Target) :
    w.facility.Spends (k.perform w).world.facility
      ((k.perform w).signals.filterMap Signal.posted?) t := by
  cases k with
  | setTimer => exact absurd rfl (no_timer _ _ _ _ _)
  | post => exact absurd rfl (no_post _)
  | act a =>
    simp only [perform, World.act, filterMap_posted]
    cases a with
    | expire f => exact .expire _ f t
    | expireAll => exact .expireEach _ _ t
  | allocate object =>
    simp only [perform]
    split <;> exact .refl _ t
  | retain x =>
    simp only [perform]
    split <;> exact .refl _ t
  | dispose c =>
    simp only [perform]
    split
    · simp only [World.dispose, World.disposeContext, filterMap_cancelled]
      exact w.disposeContext_spends c t
    · exact .refl _ t
  | close =>
    simp only [perform, World.close, World.disposeEach_signals]
    exact World.disposeEach_spends w _ t
  | disposeContext c =>
    simp only [perform, World.disposeContext, filterMap_cancelled]
    exact w.disposeContext_spends c t
  | clearTimer c id =>
    simp only [perform, clearTimerIn]
    split
    · split
      · exact .cancel _ _ t
      · exact .refl _ t
    · exact .refl _ t
  | installTimer c | removeTimer c | requestFrame c | registerFrame c | cancelFrame c
  | trackUnhandled c | trackHandled c | reclaim c =>
    simp only [perform, inContext]
    split <;> exact .refl _ t
  | write | setThreshold | listen | leave | createContext => exact .refl _ t

theorem setTimer_facility (w : World Obj Manual) (c : ContextId) (mode : TimerMode)
    (callback : Value) (delay : Duration) (arguments : List Value) :
    (setTimerIn w c mode callback delay arguments).world.facility = w.facility ∨
      ∃ timeout, (setTimerIn w c mode callback delay arguments).world.facility =
        w.facility.schedule ⟨c, (setTimerIn w c mode callback delay arguments).answer⟩ timeout
          (mode == .repeating) := by
  unfold setTimerIn
  split
  · split
    · exact Or.inr ⟨_, rfl⟩
    · exact Or.inl rfl
  · exact Or.inl rfl

theorem setTimer_signals (w : World Obj Manual) (c : ContextId) (mode : TimerMode)
    (callback : Value) (delay : Duration) (arguments : List Value) :
    (setTimerIn w c mode callback delay arguments).signals.filterMap Signal.posted? = [] := by
  unfold setTimerIn
  repeat' split
  all_goals rfl

end Command

variable {E : Embedder Obj Manual}

namespace Execution

variable {x y : Execution E}

structure Timed (x : Execution E) (t : Target) : Prop where
  repeats : x.world.facility.Repeats t → 0 < x.history.countP (·.sets .repeating t)
  once : x.history.countP (·.sets .repeating t) = 0 →
    x.history.countP (·.posts (·.target = t)) + x.world.facility.pending t ≤
      x.history.countP (·.sets .once t)

theorem Timed.of_quiet {t : Target} {signals : List Signal} {last : List (Event E)}
    (timed : x.Timed t) (history : Grows x y signals last)
    (facility : y.world.facility = x.world.facility)
    (silent : signals.filterMap Signal.posted? = [])
    (no_signal : last.countP (·.posts (·.target = t)) = 0)
    (no_timer : ∀ mode, last.countP (·.sets mode t) = 0) : y.Timed t := by
  constructor
  · rw [facility, history.sets, no_timer, Nat.zero_add]
    exact timed.repeats
  · rw [facility, history.sets, history.sets, no_timer, no_timer, history.posts no_signal, silent,
      List.countP_nil, Nat.zero_add, Nat.zero_add, Nat.zero_add]
    exact timed.once

theorem Timed.setTimer {t : Target} {c : ContextId} {mode : TimerMode} {callback : Value}
    {delay : Duration} {arguments : List Value} (timed : x.Timed t)
    (world : y.world = (Command.setTimerIn x.world c mode callback delay arguments).world)
    (history : Grows x y (Command.setTimerIn x.world c mode callback delay arguments).signals
      [.performed (.setTimer c mode callback delay arguments)
        (Command.setTimerIn x.world c mode callback delay arguments).answer]) :
    y.Timed t := by
  have silent := Command.setTimer_signals x.world c mode callback delay arguments
  have facility := Command.setTimer_facility x.world c mode callback delay arguments
  generalize Command.setTimerIn x.world c mode callback delay arguments = effect at *
  have counts : ∀ mode', y.history.countP (·.sets mode' t) =
      (if mode = mode' ∧ (⟨c, effect.answer⟩ : Target) = t then 1 else 0) +
        x.history.countP (·.sets mode' t) := by
    intro mode'
    rw [history.sets, List.countP_singleton]
    simp only [Event.sets, Bool.and_eq_true, decide_eq_true_eq]
  have posted : y.history.countP (·.posts (·.target = t)) =
      x.history.countP (·.posts (·.target = t)) := by
    rw [history.posts rfl, silent, List.countP_nil, Nat.zero_add]
  rw [← world] at facility
  constructor
  · intro repeats
    rw [counts]
    rcases facility with same | ⟨timeout, scheduled⟩
    · rw [same] at repeats
      exact Nat.lt_of_lt_of_le (timed.repeats repeats) (Nat.le_add_left _ _)
    · rw [scheduled] at repeats
      rcases Manual.repeats_of_schedule repeats with old | ⟨here, again⟩
      · exact Nat.lt_of_lt_of_le (timed.repeats old) (Nat.le_add_left _ _)
      · rw [if_pos ⟨by simpa using again, here.symm⟩]
        omega
  · intro single
    rw [counts] at single
    have before := timed.once (by omega)
    rw [posted, counts]
    rcases facility with same | ⟨timeout, scheduled⟩
    · rw [same]
      omega
    · have more := Manual.pending_schedule_le x.world.facility ⟨c, effect.answer⟩ t timeout
        (mode == .repeating)
      rw [scheduled]
      by_cases here : (⟨c, effect.answer⟩ : Target) = t
      · have once : mode = .once := by
          cases mode with
          | once => rfl
          | repeating =>
            rw [if_pos ⟨rfl, here⟩] at single
            omega
        rw [if_pos here] at more
        rw [if_pos ⟨once, here⟩]
        omega
      · rw [if_neg here] at more
        omega

theorem Timed.performed {t : Target} {k : Command Obj Manual} (timed : x.Timed t)
    (no_timer : ∀ c mode callback delay arguments, k ≠ .setTimer c mode callback delay arguments)
    (no_post : ∀ f, k ≠ .post f) (world : y.world = (k.perform x.world).world)
    (history : Grows x y (k.perform x.world).signals [.performed k (k.perform x.world).answer]) :
    y.Timed t := by
  have spends := Command.perform_spends no_timer no_post x.world t
  have silent : ∀ mode, [(Event.performed k (k.perform x.world).answer : Event E)].countP
      (·.sets mode t) = 0 := by
    intro mode
    cases k with
    | setTimer => exact absurd rfl (no_timer _ _ _ _ _)
    | _ => rfl
  rw [← world] at spends
  constructor
  · intro repeats
    rw [history.sets, silent, Nat.zero_add]
    exact timed.repeats (spends.repeats repeats)
  · intro single
    rw [history.sets, silent, Nat.zero_add] at single
    have not_repeats : ¬ x.world.facility.Repeats t := fun repeats =>
      absurd (timed.repeats repeats) (by omega)
    have spent := spends.once not_repeats
    have before := timed.once single
    rw [history.sets, silent, history.posts rfl]
    omega

variable [Traced Obj]

theorem Rewrites.timed (rewrites : Rewrites x y) (no_post : ∀ f, ¬ x.Performs (.post f))
    {t : Target} (timed : x.Timed t) : y.Timed t := by
  cases rewrites with
  | idle _ _ world history | halted _ _ world history | called _ _ world history =>
    exact timed.of_quiet history (congrArg World.facility world) rfl rfl fun _ => rfl
  | @performed k performs _ world history =>
    by_cases sets : ∃ c mode callback delay arguments,
        k = .setTimer c mode callback delay arguments
    · obtain ⟨c, mode, callback, delay, arguments, rfl⟩ := sets
      exact timed.setTimer world history
    · refine timed.performed ?_ ?_ world history
      · rintro c mode callback delay arguments rfl
        exact sets ⟨_, _, _, _, _, rfl⟩
      · rintro f rfl
        exact no_post f performs
  | began _ _ world history =>
    refine timed.of_quiet history ?_ ?_ rfl fun _ => rfl
    · rw [world, Procedure.start_facility]
    · rw [Procedure.start_signals]
      rfl
  | returned _ _ world history =>
    refine timed.of_quiet history ?_ ?_ rfl fun _ => rfl
    · rw [world]
      exact congrArg Prod.fst (Call.resume_host _ _ _ _ _)
    · rw [Call.resume_signals]
      rfl
  | worked _ _ _ world history =>
    refine timed.of_quiet history ?_ (Task.run_signals _ _ _ _) rfl fun _ => rfl
    rw [world]
    exact congrArg Prod.fst (Task.run_host _ _ _ _)

end Execution

end HostBridge
