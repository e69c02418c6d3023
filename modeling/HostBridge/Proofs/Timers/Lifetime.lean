import HostBridge.Proofs.Contexts.Change
import HostBridge.Proofs.Registry
import HostBridge.Proofs.Rejections.Order
/-!
# The timers of a context

Timers become active by two commands and stop being active by commands and by their retirement.
An active timer is known by its serial in a whole run, and one that has gone does not come back.
-/

namespace HostBridge

variable {Obj τ : Type}

def World.timers (w : World Obj τ) (c : ContextId) : Timers :=
  (w.context? c).elim {} Context.timers

theorem World.timers_of_context? {w : World Obj τ} {c : ContextId} {a : Context}
    (found : w.context? c = some a) : w.timers c = a.timers := by
  rw [timers, found, Option.elim_some]

namespace Execution

variable [Facility τ] {E : Embedder Obj τ}

inductive Offers (x : Execution E) (c : ContextId) (a : Context) : TimerId → Timer → Prop
  | set {mode : TimerMode} {callback : Value} {delay : Duration} {arguments : List Value}
      (performs : x.Performs (.setTimer c mode callback delay arguments)) (valid : a.valid = true) :
      Offers x c a (a.newTimer callback delay arguments mode).id
        (a.newTimer callback delay arguments mode)
  | installed {id : TimerId} {t : Timer} (performs : x.Performs (.installTimer c id t)) :
      Offers x c a id t

inductive TimerChange (x : Execution E) (c : ContextId) (r : Timers) : Timers → Prop
  | kept : TimerChange x c r r
  | offered {a : Context} {id : TimerId} {t : Timer} (found : x.world.context? c = some a)
      (offers : x.Offers c a id t) : TimerChange x c r (r.accept id t)
  | removed {id : TimerId}
      (performs : x.Performs (.clearTimer c id) ∨ x.Performs (.removeTimer c id)) :
      TimerChange x c r (r.remove id)
  | retired {id : TimerId} (retires : x.AtTask (.retire c id)) : TimerChange x c r (r.remove id)
  | abandoned {command : Command Obj τ} (performs : x.Performs command)
      (disposes : command.Disposes x.world c) : TimerChange x c r r.abandonAll
  | reclaimed : TimerChange x c r r.reclaim

variable {x y : Execution E} {c : ContextId}

theorem Changes.timers {a b : Context} (found : x.world.context? c = some a)
    (changes : x.Changes c a b) : x.TimerChange c a.timers b.timers := by
  cases changes with
  | @timerSet mode callback delay arguments performs =>
    rw [Context.setTimer]
    split
    · rename_i valid
      exact .offered found (.set performs valid)
    · exact .kept
  | timerInstalled performs => exact .offered found (.installed performs)
  | timerRemoved performs => exact .removed performs
  | timerRetired retires => exact .retired retires
  | disposed performs disposes =>
    rw [Context.dispose]
    split
    · exact .abandoned performs disposes
    · exact .kept
  | reclaimed => exact .reclaimed
  | _ => exact .kept

theorem Outcome.timers {o o' : Option Context} (found : x.world.context? c = o)
    (outcome : x.Outcome c o o') :
    x.TimerChange c (o.elim {} Context.timers) (o'.elim {} Context.timers) := by
  cases outcome with
  | absent | created => exact .kept
  | changed changes => exact changes.timers found

theorem TimerChange.apply {r r' : Timers} (change : x.TimerChange c r r') :
    r' = r ∨ ∃ op, r' = r.apply op := by
  cases change with
  | kept => exact Or.inl rfl
  | offered => exact Or.inr ⟨.accept _ _, rfl⟩
  | removed | retired => exact Or.inr ⟨.remove _, rfl⟩
  | abandoned => exact Or.inr ⟨.abandonAll, rfl⟩
  | reclaimed => exact Or.inr ⟨.reclaim, rfl⟩

theorem TimerChange.mem {r r' : Timers} {e : Entry TimerId Timer} (change : x.TimerChange c r r')
    (mem : e ∈ r'.active) : e ∈ r.active ∨
      e.serial = r.accepted ∧ ∃ a, x.world.context? c = some a ∧ x.Offers c a e.key e.item := by
  cases change with
  | kept | reclaimed => exact Or.inl mem
  | abandoned => exact nomatch mem
  | removed | retired => exact Or.inl (Registry.mem_of_mem_remove mem)
  | offered found offers =>
    rcases Registry.mem_accept mem with old | ⟨_, rfl⟩
    · exact Or.inl old
    · exact Or.inr ⟨rfl, _, found, offers⟩

variable [Traced Obj]

theorem run_timers (x : Execution E) (c : ContextId) (n : Nat) :
    (x.run n).TimerChange c ((x.run n).world.timers c) ((x.run (n + 1)).world.timers c) :=
  ((x.run_rewrites n).outcome c).timers rfl

omit [Traced Obj] in
theorem Blank.timers (blank : x.Blank) (c : ContextId) : x.world.timers c = {} := by
  rw [World.timers, World.context?, blank.no_context]
  rfl

theorem timers_evolve (x : Execution E) (c : ContextId) :
    Registry.Evolves fun n => (x.run n).world.timers c :=
  fun n => (x.run_timers c n).apply

theorem timers_sound (blank : x.Blank) (c : ContextId) (n : Nat) :
    ((x.run n).world.timers c).Sound :=
  (x.timers_evolve c).sound (blank.timers c) n

section

variable {e d : Entry TimerId Timer} {m n : Nat}

theorem accepted_mono (x : Execution E) (c : ContextId) (le : m ≤ n) :
    ((x.run m).world.timers c).accepted ≤ ((x.run n).world.timers c).accepted :=
  (x.timers_evolve c).accepted_mono le

theorem gone_mono (gone : ((x.run m).world.timers c).Gone e) (le : m ≤ n) :
    ((x.run n).world.timers c).Gone e :=
  (x.timers_evolve c).gone_mono gone le

theorem eq_of_serial_of_active (blank : x.Blank) (here : e ∈ ((x.run m).world.timers c).active)
    (there : d ∈ ((x.run n).world.timers c).active) (same : d.serial = e.serial) : d = e :=
  (x.timers_evolve c).eq_of_serial (blank.timers c) here there same

end

end Execution

end HostBridge
