import HostBridge.Proofs.Contexts.Disposal
import HostBridge.Proofs.Contexts.Keeping
import HostBridge.Proofs.Timers.Manual
import HostBridge.Proofs.Timers.Setting
/-!
# What a step does to a timer and to its schedule

The context knows which timers are active, and the facility which are scheduled. `Retimes` lists
what a step can do to the two for one target: they change together, but for the expiry of a one-shot
timer, which leaves it active, and for its retirement.
-/

namespace HostBridge

variable {Obj : Type}

structure Scheduled.Times (s : Scheduled) (e : Entry TimerId Timer) : Prop where
  delay : s.delay = e.item.timeout
  repeats : s.repeats = (e.item.mode == .repeating)

def Context.ready? (a : Context) (id : TimerId) : Option (Entry TimerId Timer) :=
  if a.valid then a.timers.entry? id else none

namespace World

section

variable {τ : Type}

theorem ready?_update (w : World Obj τ) {c' : ContextId} {f : Context → Context}
    (ids : ∀ a, a.id = c' → (f a).id = c') (c : ContextId) (id : TimerId) :
    (w.update c' f).ready? c id =
      (w.context? c).bind fun a => (if c = c' then f a else a).ready? id := by
  rw [ready?, w.context?_update ids c, Option.bind_map]
  rfl

theorem ready?_update_of_ne (w : World Obj τ) {c' c : ContextId} {f : Context → Context}
    (ids : ∀ a, a.id = c' → (f a).id = c') (other : c ≠ c') (id : TimerId) :
    (w.update c' f).ready? c id = w.ready? c id := by
  rw [ready?_update w ids]
  simp only [if_neg other]
  rfl

end

def Settles (w w' : World Obj Manual) (t : Target) : Prop :=
  w'.ready? t.context t.timer = w.ready? t.context t.timer ∧
      w'.facility.get? t = w.facility.get? t ∨
    w'.ready? t.context t.timer = none ∧ w'.facility.get? t = none

theorem Settles.trans {w w' w'' : World Obj Manual} {t : Target} (first : w.Settles w' t)
    (second : w'.Settles w'' t) : w.Settles w'' t := by
  rcases second with ⟨ready, timed⟩ | gone
  · rwa [Settles, ready, timed]
  · exact Or.inr gone

theorem disposeContext_settles {w : World Obj Manual} (distinct : w.facility.Distinct)
    (c : ContextId) (t : Target) : (w.disposeContext c).1.facility.Distinct ∧
      w.Settles (w.disposeContext c).1 t := by
  obtain ⟨still, each⟩ := facility_foldl_cancel (w := w.update c Context.dispose) distinct (w.timed c)
  refine ⟨still, ?_⟩
  have after : (w.disposeContext c).1.ready? t.context t.timer =
      if t.context = c then none else w.ready? t.context t.timer := by
    rw [ready?, context?_disposeContext, Option.bind_map]
    split
    · cases found : w.context? t.context with
      | none => rfl
      | some a =>
        simp [a.dispose_valid]
    · rfl
  have timed : (w.disposeContext c).1.facility.get? t =
      if t ∈ w.timed c then none else w.facility.get? t := each t
  by_cases named : t.context = c
  · rw [if_pos named] at after
    by_cases listed : t ∈ w.timed c
    · exact Or.inr ⟨after, by rw [timed, if_pos listed]⟩
    · -- What is not timed was not active, or its context was disposed before.
      refine Or.inl ⟨?_, by rw [timed, if_neg listed]⟩
      rw [after]
      cases ready : w.ready? t.context t.timer with
      | none => rfl
      | some e =>
        exfalso
        apply listed
        obtain ⟨a, found, valid, entry⟩ := ready?_eq_some.mp ready
        simp only [World.timed, ← named, found, valid, if_true]
        apply List.mem_map.mpr
        refine ⟨t.timer, ?_, rfl⟩
        rw [Timers.sortedIds, List.mem_mergeSort]
        have keyed := List.mem_map_of_mem (f := Entry.key) (Registry.mem_of_entry entry)
        rwa [Registry.key_of_entry entry] at keyed
  · rw [if_neg named] at after
    have unlisted : t ∉ w.timed c := by
      intro listed
      unfold World.timed at listed
      split at listed
      · split at listed
        · obtain ⟨_, _, same⟩ := List.mem_map.mp listed
          exact named (congrArg Target.context same).symm
        · cases listed
      · cases listed
    exact Or.inl ⟨after, by rw [timed, if_neg unlisted]⟩

theorem disposeEach_settles {w : World Obj Manual} (distinct : w.facility.Distinct)
    (cs : List ContextId) (t : Target) : (w.disposeEach cs).1.facility.Distinct ∧
      w.Settles (w.disposeEach cs).1 t := by
  induction cs generalizing w with
  | nil => exact ⟨distinct, Or.inl ⟨rfl, rfl⟩⟩
  | cons c cs ih =>
    obtain ⟨still, first⟩ := disposeContext_settles distinct c t
    obtain ⟨last, second⟩ := ih still
    exact ⟨last, first.trans second⟩

end World

def Command.sparesTimers : Command Obj Manual → Bool
  | setTimer .. | clearTimer .. | installTimer .. | removeTimer .. => false
  | dispose _ | close | disposeContext _ => false
  | _ => true

section

variable {w : World Obj Manual} {c : ContextId}

theorem Command.clearTimer_settles (distinct : w.facility.Distinct)
    (sound : (w.timers c).Sound) (id : TimerId) (t : Target) :
    (clearTimerIn w c id).world.facility.Distinct ∧ w.Settles (clearTimerIn w c id).world t := by
  cases found : w.context? c with
  | none =>
    simp only [clearTimerIn, found]
    exact ⟨distinct, Or.inl ⟨rfl, rfl⟩⟩
  | some a =>
    simp only [clearTimerIn, found]
    split
    · have ids : ∀ b : Context, b.id = c → { b with timers := b.timers.remove id }.id = c :=
        fun _ here => here
      have timed := Manual.get?_cancel distinct ⟨c, id⟩ t
      have ready : ∀ i, (w.update c fun b => { b with timers := b.timers.remove id }).ready? c i =
          if i = id then none else w.ready? c i := by
        intro i
        rw [World.timers_of_context? found] at sound
        rw [w.ready?_update ids, found, Option.bind_some, if_pos rfl, World.ready?, found,
          Option.bind_some, Context.ready?, sound.entry?_remove]
        by_cases same : i = id <;> simp [same]
      refine ⟨distinct.cancel _, ?_⟩
      by_cases same : t = ⟨c, id⟩
      · refine Or.inr ⟨?_, timed.trans (if_pos same)⟩
        rw [same]
        exact (ready id).trans (if_pos rfl)
      · refine Or.inl ⟨?_, timed.trans (if_neg same)⟩
        by_cases named : t.context = c
        · have other : t.timer ≠ id := fun same_id => same (by rw [← named, ← same_id])
          rw [named]
          exact (ready t.timer).trans (if_neg other)
        · exact World.ready?_update_of_ne w ids named t.timer
    · exact ⟨distinct, Or.inl ⟨rfl, rfl⟩⟩

section SetTimer

variable {a : Context} {id : TimerId} (mode : TimerMode) (callback : Value) (delay : Duration)
  (arguments : List Value)

theorem Command.setTimer_ready? (found : w.context? c = some a) (i : TimerId) :
    (setTimerIn w c mode callback delay arguments).world.ready? c i =
      (a.setTimer (a.newTimer callback delay arguments mode)).ready? i := by
  rw [World.ready?, setTimer_context? found]
  rfl

theorem Command.setTimer_times (found : w.context? c = some a) (valid : a.valid = true)
    (given : a.timers.freeFrom a.nextTimer = id) (free : a.timers.contains id = false) :
    ∃ e s, (setTimerIn w c mode callback delay arguments).world.ready? c id = some e ∧
      (setTimerIn w c mode callback delay arguments).world.facility.get? ⟨c, id⟩ = some s ∧
      s.Times e := by
  subst given
  refine ⟨⟨a.timers.freeFrom a.nextTimer, a.timers.accepted,
      a.newTimer callback delay arguments mode⟩,
    ⟨⟨c, a.timers.freeFrom a.nextTimer⟩, (a.newTimer callback delay arguments mode).timeout,
      mode == .repeating⟩, ?_, ?_, ⟨rfl, rfl⟩⟩
  · rw [setTimer_ready? mode callback delay arguments found, Context.ready?, Context.setTimer]
    simp only [valid, if_true]
    exact (Registry.entry?_accept free _).trans (if_pos rfl)
  · simp only [setTimerIn, found, if_pos valid]
    exact (Manual.get?_schedule _ _ _ w.facility _).trans (if_pos rfl)

theorem Command.setTimer_settles (distinct : w.facility.Distinct) (found : w.context? c = some a) :
    (setTimerIn w c mode callback delay arguments).world.facility.Distinct ∧
      ∀ t, (a.valid = true → t ≠ ⟨c, a.timers.freeFrom a.nextTimer⟩) →
        w.Settles (setTimerIn w c mode callback delay arguments).world t := by
  have ready : ∀ t : Target, (a.valid = true → t ≠ ⟨c, a.timers.freeFrom a.nextTimer⟩) →
      (setTimerIn w c mode callback delay arguments).world.ready? t.context t.timer =
        w.ready? t.context t.timer := by
    intro t other
    by_cases named : t.context = c
    · rw [named, setTimer_ready? mode callback delay arguments found, World.ready?, found,
        Option.bind_some, Context.ready?, Context.setTimer]
      by_cases valid : a.valid = true
      · have other_id : t.timer ≠ a.timers.freeFrom a.nextTimer := by
          intro same
          apply other valid
          rw [← named, ← same]
        simp only [valid, if_true]
        exact Registry.entry?_accept_of_ne other_id
      · simp [valid]
    · have ids : ∀ b : Context, b.id = c →
          (b.setTimer (a.newTimer callback delay arguments mode)).id = c := fun _ here => here
      simp only [setTimerIn, found]
      split <;> exact World.ready?_update_of_ne w ids named t.timer
  cases valid : a.valid with
  | true =>
    rw [valid] at ready
    refine ⟨?_, fun t other => Or.inl ⟨ready t other, ?_⟩⟩
    · simp only [setTimerIn, found, if_pos valid]
      exact distinct.schedule _ _ _
    · simp only [setTimerIn, found, if_pos valid]
      exact (Manual.get?_schedule _ _ _ w.facility t).trans (if_neg (other rfl))
  | false =>
    rw [valid] at ready
    refine ⟨?_, fun t other => Or.inl ⟨ready t other, ?_⟩⟩
    · simp only [setTimerIn, found, valid]
      exact distinct
    · simp only [setTimerIn, found, valid]
      rfl

end SetTimer

end

namespace Execution

variable {E : Embedder Obj Manual} {x y : Execution E} {t : Target}

inductive Gives (x : Execution E) (t : Target) : Prop
  | intro {mode : TimerMode} {callback : Value} {delay : Duration} {arguments : List Value}
      {a : Context} (performs : x.Performs (.setTimer t.context mode callback delay arguments))
      (found : x.world.context? t.context = some a) (valid : a.valid = true)
      (id : a.timers.freeFrom a.nextTimer = t.timer)

def Unclaimed (x : Execution E) (t : Target) : Prop :=
  x.Gives t → (x.world.timers t.context).contains t.timer = false

inductive Retimes (x : Execution E) (w : World Obj Manual) (t : Target) : Prop
  | settles (settles : x.world.Settles w t)
  | set {e : Entry TimerId Timer} {s : Scheduled} (gives : x.Gives t)
      (ready : w.ready? t.context t.timer = some e) (timed : w.facility.get? t = some s)
      (times : s.Times e)
  | expired {s : Scheduled} (once : x.world.facility.get? t = some s ∧ s.repeats = false)
      (ready : w.ready? t.context t.timer = x.world.ready? t.context t.timer)
      (timed : w.facility.get? t = none) (posted : ∃ f ∈ w.queue.waiting, f.target = t)
  | retired (retires : x.AtTask (.retire t.context t.timer))
      (ready : w.ready? t.context t.timer = none)
      (timed : w.facility.get? t = x.world.facility.get? t)

theorem Changes.ready? {c : ContextId} {a b : Context} (changes : x.Changes c a b)
    (sound : a.timers.Sound) (id : TimerId)
    (spares : ∀ k, x.Performs k → k.sparesTimers = true) :
    b.ready? id = a.ready? id ∨ x.AtTask (.retire c id) ∧ b.ready? id = none := by
  have spared : ∀ {k}, x.Performs k → k.sparesTimers = false → False := by
    intro k performs not_spared
    rw [spares k performs] at not_spared
    cases not_spared
  cases changes with
  | timerSet performs | timerInstalled performs => exact (spared performs rfl).elim
  | timerRemoved performs =>
    rcases performs with performs | performs
    · exact (spared performs rfl).elim
    · exact (spared performs rfl).elim
  | @timerRetired i retires =>
    by_cases same : id = i
    · refine Or.inr ⟨same ▸ retires, ?_⟩
      rw [Context.ready?, sound.entry?_remove, if_pos same, ite_self]
    · left
      rw [Context.ready?, sound.entry?_remove, if_neg same, Context.ready?]
  | @disposed command performs disposes =>
    cases command with
    | dispose | close | disposeContext => exact (spared performs rfl).elim
    | allocate | write | retain | setThreshold | act | post | listen | leave | createContext
    | setTimer | clearTimer | installTimer | removeTimer | requestFrame | registerFrame
    | cancelFrame | trackUnhandled | trackHandled | reclaim => cases disposes
  | kept | timerFired | levelSet | frameRequested | frameRegistered | frameCancelled | frameTaken
  | rejectionTracked | handlerTracked | batchTaken | drainBegun | drainEnded | classesKept
  | reclaimed => exact Or.inl rfl

theorem Outcome.ready? {c : ContextId} {w : World Obj Manual}
    (outcome : x.Outcome c (x.world.context? c) (w.context? c))
    (sound : (x.world.timers c).Sound) (id : TimerId)
    (spares : ∀ k, x.Performs k → k.sparesTimers = true) :
    w.ready? c id = x.world.ready? c id ∨ x.AtTask (.retire c id) ∧ w.ready? c id = none := by
  rw [World.ready?, World.ready?]
  generalize before : x.world.context? c = o at outcome
  generalize w.context? c = o' at outcome
  cases outcome with
  | absent | created => exact Or.inl rfl
  | changed changes =>
    rw [World.timers_of_context? before] at sound
    exact changes.ready? sound id spares

structure Timely (x : Execution E) : Prop where
  sound : ∀ c, (x.world.timers c).Sound
  distinct : x.world.facility.Distinct

theorem Outcome.retimes {w : World Obj Manual}
    (outcome : ∀ c, x.Outcome c (x.world.context? c) (w.context? c)) (timely : x.Timely)
    (spares : ∀ k, x.Performs k → k.sparesTimers = true)
    (facility : w.facility = x.world.facility) (t : Target) : x.Retimes w t := by
  have timed : w.facility.get? t = x.world.facility.get? t := by rw [facility]
  rcases (outcome t.context).ready? (timely.sound _) t.timer spares with same | ⟨retires, gone⟩
  · exact .settles (Or.inl ⟨same, timed⟩)
  · exact .retired retires gone timed

section

variable {k : Command Obj Manual} {c : ContextId}

theorem Timely.retimes_act (timely : x.Timely) (a : Facility.Act Manual) :
    (Command.perform x.world (.act a)).world.facility.Distinct ∧
      ∀ t, x.Retimes (Command.perform x.world (.act a)).world t := by
  have expires := Manual.expires_perform timely.distinct a
  refine ⟨expires.distinct, ?_⟩
  intro t
  rcases expires.kept t with same | ⟨gone, f, mem, named⟩
  · exact .settles (Or.inl ⟨rfl, same⟩)
  · obtain ⟨s, found, after⟩ := expires.scheduled f mem
    rw [named] at found after
    rw [gone] at after
    have once : s.repeats = false := by cases again : s.repeats <;> simp [again] at after ⊢
    refine .expired ⟨found, once⟩ rfl gone ⟨f, ?_, named⟩
    simp only [Command.perform, World.act, FireQueue.post_waiting]
    exact List.mem_append_right _ mem

theorem Performs.retimes_set {mode : TimerMode} {callback : Value} {delay : Duration}
    {arguments : List Value} (performs : x.Performs (.setTimer c mode callback delay arguments))
    (timely : x.Timely) :
    (Command.setTimerIn x.world c mode callback delay arguments).world.facility.Distinct ∧
      ∀ t, x.Unclaimed t →
        x.Retimes (Command.setTimerIn x.world c mode callback delay arguments).world t := by
  cases found : x.world.context? c with
  | none =>
    simp only [Command.setTimerIn, found]
    exact ⟨timely.distinct, fun t _ => .settles (Or.inl ⟨rfl, rfl⟩)⟩
  | some a =>
    obtain ⟨distinct, others⟩ :=
      Command.setTimer_settles mode callback delay arguments timely.distinct found
    refine ⟨distinct, fun t unclaimed => ?_⟩
    by_cases here : a.valid = true ∧ t = ⟨c, a.timers.freeFrom a.nextTimer⟩
    · obtain ⟨valid, rfl⟩ := here
      have gives : x.Gives ⟨c, a.timers.freeFrom a.nextTimer⟩ := .intro performs found valid rfl
      have free := unclaimed gives
      rw [World.timers_of_context? found] at free
      obtain ⟨e, s, ready, timed, times⟩ :=
        Command.setTimer_times mode callback delay arguments found valid rfl free
      exact .set gives ready timed times
    · exact .settles (others t fun valid same => here ⟨valid, same⟩)

theorem Performs.retimes (performs : x.Performs k) (timely : x.Timely)
    (no_install : ∀ c id u, k ≠ .installTimer c id u) (no_remove : ∀ c id, k ≠ .removeTimer c id) :
    (k.perform x.world).world.facility.Distinct ∧
      ∀ t, x.Unclaimed t → x.Retimes (k.perform x.world).world t := by
  have still : k.sparesTimers = true → (k.perform x.world).world.facility = x.world.facility →
      (k.perform x.world).world.facility.Distinct ∧
        ∀ t, x.Unclaimed t → x.Retimes (k.perform x.world).world t := by
    intro spares facility
    have only : ∀ k', x.Performs k' → k'.sparesTimers = true :=
      fun k' performs' => performs.unique performs' ▸ spares
    exact ⟨facility ▸ timely.distinct,
      fun t _ => Outcome.retimes performs.outcome timely only facility t⟩
  have ends : ∀ {w : World Obj Manual},
      (w.facility.Distinct ∧ ∀ t, x.world.Settles w t) →
        w.facility.Distinct ∧ ∀ t, x.Unclaimed t → x.Retimes w t :=
    fun settled => ⟨settled.1, fun t _ => .settles (settled.2 t)⟩
  cases k with
  | act a => exact ⟨(timely.retimes_act a).1, fun t _ => (timely.retimes_act a).2 t⟩
  | setTimer c mode callback delay arguments => exact performs.retimes_set timely
  | clearTimer c id =>
    have settles := Command.clearTimer_settles timely.distinct (timely.sound c) id
    exact ends ⟨(settles ⟨c, id⟩).1, fun t => (settles t).2⟩
  | installTimer c id u => exact absurd rfl (no_install c id u)
  | removeTimer c id => exact absurd rfl (no_remove c id)
  | disposeContext c =>
    have settles := World.disposeContext_settles timely.distinct c
    exact ends ⟨(settles ⟨c, ⟨0⟩⟩).1, fun t => (settles t).2⟩
  | close =>
    have settles := World.disposeEach_settles timely.distinct x.world.liveInOrder
    exact ends ⟨(settles ⟨⟨0⟩, ⟨0⟩⟩).1, fun t => (settles t).2⟩
  | dispose c =>
    simp only [Command.perform]
    split
    · have settles := World.disposeContext_settles timely.distinct c
      exact ends ⟨(settles ⟨c, ⟨0⟩⟩).1, fun t => (settles t).2⟩
    · exact ends ⟨timely.distinct, fun t => Or.inl ⟨rfl, rfl⟩⟩
  | allocate object =>
    apply still rfl
    simp only [Command.perform]
    split <;> rfl
  | retain h =>
    apply still rfl
    simp only [Command.perform]
    split <;> rfl
  | requestFrame | registerFrame | cancelFrame | trackUnhandled | trackHandled | reclaim =>
    apply still rfl
    simp only [Command.perform, Command.inContext]
    split <;> rfl
  | write | setThreshold | post | listen | leave | createContext => exact still rfl rfl

end

variable [Traced Obj]

theorem Rewrites.retimes (rewrites : Rewrites x y) (timely : x.Timely)
    (no_install : ∀ c id u, ¬ x.Performs (.installTimer c id u))
    (no_remove : ∀ c id, ¬ x.Performs (.removeTimer c id)) :
    y.world.facility.Distinct ∧ ∀ t, x.Unclaimed t → x.Retimes y.world t := by
  have idle : (∀ k, ¬ x.Performs k) → y.world.facility = x.world.facility →
      y.world.facility.Distinct ∧ ∀ t, x.Unclaimed t → x.Retimes y.world t := by
    intro no_command facility
    have spares : ∀ k, x.Performs k → k.sparesTimers = true :=
      fun k performs => absurd performs (no_command k)
    exact ⟨facility ▸ timely.distinct,
      fun t _ => Outcome.retimes rewrites.outcome timely spares facility t⟩
  cases rewrites with
  | idle _ _ world | halted _ _ world | called _ _ world =>
    rw [world]
    exact ⟨timely.distinct, fun t _ => .settles (Or.inl ⟨rfl, rfl⟩)⟩
  | @performed k performs _ world =>
    rw [world]
    refine performs.retimes timely ?_ ?_
    · rintro c id u rfl
      exact no_install c id u performs
    · rintro c id rfl
      exact no_remove c id performs
  | began requests _ world =>
    refine idle (fun k performs => performs.not_requests requests) ?_
    rw [world, Procedure.start_facility]
  | returned _ _ world _ returns =>
    refine idle (fun k => returns.not_performs) ?_
    rw [world]
    exact congrArg Prod.fst (Call.resume_host _ _ _ _ _)
  | worked top _ _ world =>
    refine idle (fun k performs => performs.not_atTask _ ⟨_, top⟩) ?_
    rw [world]
    exact congrArg Prod.fst (Task.run_host _ _ _ _)

end Execution

end HostBridge
