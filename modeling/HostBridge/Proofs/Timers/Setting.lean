import HostBridge.Proofs.Ident
import HostBridge.Proofs.Timers.Posting
import Mathlib.Algebra.Group.Nat.Defs
/-!
# Timers that are set

Where code installs no timers of its own, every active timer was set, and setting it gave its id.
The ids of a context are given in order, so that no id is given twice before all have been.
-/

namespace HostBridge

theorem Timers.freeFrom_eq {r : Timers} {i : TimerId} (free : r.contains i = false) :
    r.freeFrom i = i := by
  unfold freeFrom
  cases r.active.length with
  | zero => rfl
  | succ n => rw [firstFree, if_neg (by simp [free])]

variable {Obj τ : Type} [Facility τ]

namespace Command

variable {w : World Obj τ} {c : ContextId} {a : Context}

theorem setTimer_answer (found : w.context? c = some a) (mode : TimerMode) (callback : Value)
    (delay : Duration) (arguments : List Value) :
    (setTimerIn w c mode callback delay arguments).answer = a.timers.freeFrom a.nextTimer := by
  simp only [setTimerIn, found]
  split <;> rfl

theorem setTimer_context? (found : w.context? c = some a) (mode : TimerMode) (callback : Value)
    (delay : Duration) (arguments : List Value) :
    (setTimerIn w c mode callback delay arguments).world.context? c =
      some (a.setTimer (a.newTimer callback delay arguments mode)) := by
  have updated : (w.update c (·.setTimer (a.newTimer callback delay arguments mode))).context? c =
      some (a.setTimer (a.newTimer callback delay arguments mode)) := by
    have ids : ∀ b : Context, b.id = c →
        (b.setTimer (a.newTimer callback delay arguments mode)).id = c := fun _ here => here
    rw [w.context?_update_self ids, found, Option.map_some]
  simp only [setTimerIn, found]
  split <;> exact updated

end Command

variable {E : Embedder Obj τ}

def Event.setsIn (c : ContextId) : Event E → Bool
  | performed (.setTimer c' ..) _ => c' = c
  | _ => false

def Event.sets (mode : TimerMode) (t : Target) : Event E → Bool
  | performed (.setTimer c mode' _ _ _) answer => mode' = mode && (⟨c, answer⟩ : Target) = t
  | _ => false

namespace Execution

variable {x y : Execution E} {c : ContextId} {e : Entry TimerId Timer}

theorem Grows.sets {signals : List Signal} {last : List (Event E)} (grows : Grows x y signals last)
    (mode : TimerMode) (t : Target) : y.history.countP (·.sets mode t) =
      last.countP (·.sets mode t) + x.history.countP (·.sets mode t) :=
  grows.countP_deeds (Event.loud (fun _ _ => rfl) (fun _ => rfl) (fun _ _ => rfl) fun _ => rfl)
    fun _ => rfl

theorem Grows.setsIn {signals : List Signal} {last : List (Event E)}
    (grows : Grows x y signals last) (c : ContextId) : y.history.countP (·.setsIn c) =
      last.countP (·.setsIn c) + x.history.countP (·.setsIn c) :=
  grows.countP_deeds (Event.loud (fun _ _ => rfl) (fun _ => rfl) (fun _ _ => rfl) fun _ => rfl)
    fun _ => rfl

def given (x : Execution E) (t : Target) : Nat :=
  x.history.countP (·.sets .once t) + x.history.countP (·.sets .repeating t)

structure Sets (x : Execution E) (c : ContextId) (e : Entry TimerId Timer) (delay : Duration) :
    Prop where
  performs : x.Performs (.setTimer c e.item.mode e.item.callback delay e.item.arguments)
  answer : (Command.setTimerIn x.world c e.item.mode e.item.callback delay
    e.item.arguments).answer = e.key

theorem Offers.sets {a : Context} (found : x.world.context? c = some a)
    (offers : x.Offers c a e.key e.item) (no_install : ∀ id t, ¬ x.Performs (.installTimer c id t)) :
    ∃ delay, x.Sets c e delay := by
  obtain ⟨key, serial, item⟩ := e
  cases offers with
  | set performs valid => exact ⟨_, performs, Command.setTimer_answer found _ _ _ _⟩
  | installed performs => exact absurd performs (no_install _ _)

variable [Traced Obj]

structure Numbered (x : Execution E) (c : ContextId) : Prop where
  next : ∀ a, x.world.context? c = some a →
    0 < a.nextTimer.val.toNat ∧ a.nextTimer.val.toNat ≤ x.history.countP (·.setsIn c) + 1
  active : ∀ a, x.world.context? c = some a → ∀ e ∈ a.timers.active,
    0 < e.key.val.toNat ∧ e.key.val.toNat < a.nextTimer.val.toNat
  given : ∀ i : TimerId, 0 < i.val.toNat → 0 < x.given ⟨c, i⟩ →
    ∃ a, x.world.context? c = some a ∧ i.val.toNat < a.nextTimer.val.toNat
  once : ∀ i : TimerId, 0 < i.val.toNat → x.given ⟨c, i⟩ ≤ 1

section SetTimer

variable {mode : TimerMode} {callback : Value} {delay : Duration} {arguments : List Value} {n : Nat}

theorem sets_of_set
    (performs : (x.run n).Performs (.setTimer c mode callback delay arguments)) (mode' : TimerMode)
    (i : TimerId) : (x.run (n + 1)).history.countP (·.sets mode' ⟨c, i⟩) =
      (x.run n).history.countP (·.sets mode' ⟨c, i⟩) +
        if mode = mode' ∧ (Command.setTimerIn (x.run n).world c mode callback delay
          arguments).answer = i then 1 else 0 := by
  have told : ∀ answer : TimerId,
      [(Event.performed (.setTimer c mode callback delay arguments) answer : Event E)].countP
        (·.sets mode' ⟨c, i⟩) = if mode = mode' ∧ answer = i then 1 else 0 := by
    intro answer
    rw [List.countP_singleton]
    simp only [Event.sets, Target.mk.injEq, true_and, Bool.and_eq_true, decide_eq_true_eq]
  rw [performs.run_grows.sets, Nat.add_comm]
  exact congrArg (_ + ·) (told _)

theorem given_of_set
    (performs : (x.run n).Performs (.setTimer c mode callback delay arguments)) (i : TimerId) :
    (x.run (n + 1)).given ⟨c, i⟩ = (x.run n).given ⟨c, i⟩ +
      if (Command.setTimerIn (x.run n).world c mode callback delay arguments).answer = i then 1
      else 0 := by
  rw [given, given, sets_of_set performs, sets_of_set performs]
  cases mode <;> simp <;> omega

theorem setsIn_of_set
    (performs : (x.run n).Performs (.setTimer c mode callback delay arguments)) :
    (x.run (n + 1)).history.countP (·.setsIn c) = (x.run n).history.countP (·.setsIn c) + 1 := by
  rw [performs.run_grows.setsIn, List.countP_singleton]
  simp only [Event.setsIn, decide_true, if_true]
  omega

theorem Numbered.setTimer_absent (numbered : (x.run n).Numbered c)
    (performs : (x.run n).Performs (.setTimer c mode callback delay arguments))
    (found : (x.run n).world.context? c = none) : (x.run (n + 1)).Numbered c := by
  have nothing : Command.setTimerIn (x.run n).world c mode callback delay arguments =
      ⟨default, (x.run n).world, []⟩ := by
    rw [Command.setTimerIn, found]
  have world : (x.run (n + 1)).world = (x.run n).world :=
    performs.run_succ.trans (congrArg Command.Effect.world nothing)
  have absent : (x.run (n + 1)).world.context? c = none := by rw [world, found]
  have same : ∀ i : TimerId, 0 < i.val.toNat →
      (x.run (n + 1)).given ⟨c, i⟩ = (x.run n).given ⟨c, i⟩ := by
    intro i positive
    have other : (default : TimerId) ≠ i := by
      rintro rfl
      exact Nat.lt_irrefl _ positive
    rw [given_of_set performs, nothing, if_neg other, Nat.add_zero]
  constructor
  · intro a there
    cases absent.symm.trans there
  · intro a there
    cases absent.symm.trans there
  · intro i positive some_given
    rw [same i positive] at some_given
    obtain ⟨a, there, _⟩ := numbered.given i positive some_given
    cases found.symm.trans there
  · intro i positive
    rw [same i positive]
    exact numbered.once i positive

omit [Traced Obj] in
/-- The next id of a context is free, and it has not been given. -/
theorem Numbered.fresh (numbered : x.Numbered c) {a : Context}
    (found : x.world.context? c = some a) :
    a.timers.contains a.nextTimer = false ∧ x.given ⟨c, a.nextTimer⟩ = 0 := by
  constructor
  · rw [Registry.contains, List.any_eq_false]
    intro e mem same
    have below := (numbered.active a found e mem).2
    rw [of_decide_eq_true same] at below
    exact Nat.lt_irrefl _ below
  · by_contra given
    obtain ⟨a', there, lt⟩ :=
      numbered.given a.nextTimer (numbered.next a found).1 (Nat.pos_of_ne_zero given)
    obtain rfl := Option.some.inj (found.symm.trans there)
    exact Nat.lt_irrefl _ lt

theorem Numbered.setTimer_present (numbered : (x.run n).Numbered c)
    (performs : (x.run n).Performs (.setTimer c mode callback delay arguments)) {a : Context}
    (found : (x.run n).world.context? c = some a)
    (few : (x.run (n + 1)).history.countP (·.setsIn c) < 2 ^ 32 - 1) :
    (x.run (n + 1)).Numbered c := by
  obtain ⟨positive, le⟩ := numbered.next a found
  obtain ⟨free, not_given⟩ := numbered.fresh found
  have counted := setsIn_of_set performs
  have given : ∀ i, (x.run (n + 1)).given ⟨c, i⟩ =
      (x.run n).given ⟨c, i⟩ + if a.nextTimer = i then 1 else 0 := by
    intro i
    rw [given_of_set performs, Command.setTimer_answer found, Timers.freeFrom_eq free]
  have after : (x.run (n + 1)).world.context? c =
      some (a.setTimer (a.newTimer callback delay arguments mode)) :=
    performs.run_succ ▸ Command.setTimer_context? found mode callback delay arguments
  have id : (a.newTimer callback delay arguments mode).id = a.nextTimer := Timers.freeFrom_eq free
  have next : (a.setTimer (a.newTimer callback delay arguments mode)).nextTimer.val.toNat =
      a.nextTimer.val.toNat + 1 := by
    rw [Context.setTimer, id]
    exact nextNumber_toNat (by omega)
  constructor
  · intro b there
    obtain rfl := Option.some.inj (after.symm.trans there)
    rw [next, counted]
    omega
  · intro b there e mem
    obtain rfl := Option.some.inj (after.symm.trans there)
    rw [next]
    have old : e ∈ a.timers.active →
        0 < e.key.val.toNat ∧ e.key.val.toNat < a.nextTimer.val.toNat + 1 := by
      intro old
      have bounds := numbered.active a found e old
      omega
    simp only [Context.setTimer] at mem
    split at mem
    · rcases Registry.mem_accept mem with before | ⟨_, rfl⟩
      · exact old before
      · rw [id]
        exact ⟨positive, Nat.lt_succ_self _⟩
    · exact old mem
  · intro i i_positive some_given
    refine ⟨_, after, ?_⟩
    rw [next]
    by_cases same : a.nextTimer = i
    · rw [← same]
      exact Nat.lt_succ_self _
    · rw [given, if_neg same, Nat.add_zero] at some_given
      obtain ⟨a', there, lt⟩ := numbered.given i i_positive some_given
      obtain rfl := Option.some.inj (found.symm.trans there)
      exact Nat.lt_succ_of_lt lt
  · intro i i_positive
    rw [given]
    by_cases same : a.nextTimer = i
    · rw [same] at not_given
      rw [if_pos same]
      omega
    · rw [if_neg same, Nat.add_zero]
      exact numbered.once i i_positive

theorem Numbered.setTimer (numbered : (x.run n).Numbered c)
    (performs : (x.run n).Performs (.setTimer c mode callback delay arguments))
    (few : (x.run (n + 1)).history.countP (·.setsIn c) < 2 ^ 32 - 1) :
    (x.run (n + 1)).Numbered c := by
  cases found : (x.run n).world.context? c with
  | none => exact numbered.setTimer_absent performs found
  | some a => exact numbered.setTimer_present performs found few

end SetTimer

end Execution

end HostBridge
