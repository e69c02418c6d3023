import HostBridge.Proofs.Execution.Plan
import HostBridge.Proofs.Timers.Setting
import Mathlib.Data.List.Perm.Subperm
import Mathlib.Logic.Function.Iterate
/-!
# The ids of timers

A context looks for an id that is not active, from the next one on, and the embedder may have
installed timers under any ids. The search ends, because the ids that it tries are different and
only finitely many are active. As long as ids are left, an id is the number of those that were
issued or skipped up to it, so that it is greater than all that were issued before.
-/

namespace HostBridge

namespace TimerId

theorem toNat_iterate_next (i : TimerId) {k : Nat} (few : k < 2 ^ 32 - 1) :
    (next^[k] i).val.toNat = if i.val.toNat + k < 2 ^ 32 then i.val.toNat + k
      else i.val.toNat + k - (2 ^ 32 - 1) := by
  induction k with
  | zero => rw [Function.iterate_zero_apply, Nat.add_zero, if_pos i.val.toNat_lt]
  | succ k ih =>
    have before := ih (by omega)
    have bound := i.val.toNat_lt
    rw [Function.iterate_succ_apply', next]
    by_cases last : (next^[k] i).val.toNat + 1 = 2 ^ 32
    · rw [nextNumber_toNat_last last]
      split at before <;> split <;> omega
    · have below := (next^[k] i).val.toNat_lt
      rw [nextNumber_toNat (by omega)]
      split at before <;> split <;> omega

theorem iterate_next_inj (i : TimerId) {k l : Nat} (few : k < 2 ^ 32 - 1) (few' : l < 2 ^ 32 - 1)
    (same : next^[k] i = next^[l] i) : k = l := by
  have numbers := congrArg (·.val.toNat) same
  simp only [toNat_iterate_next i few, toNat_iterate_next i few'] at numbers
  split at numbers <;> split at numbers <;> omega

end TimerId

namespace Timers

variable {r : Timers} {i id : TimerId} {k tries : Nat}

/-- From `i` on the search skips `k` active ids and ends at one that is free. -/
inductive Finds (r : Timers) : TimerId → Nat → TimerId → Prop
  | free {i : TimerId} (inactive : r.contains i = false) : Finds r i 0 i
  | taken {i id : TimerId} {k : Nat} (active : r.contains i = true)
      (later : Finds r i.next k id) : Finds r i (k + 1) id

def skipped (r : Timers) : Nat → TimerId → Nat
  | 0, _ => 0
  | tries + 1, i => if r.contains i then skipped r tries i.next + 1 else 0

def skips (r : Timers) (i : TimerId) : Nat := skipped r r.active.length i

theorem skipped_le (r : Timers) (tries : Nat) (i : TimerId) : r.skipped tries i ≤ tries := by
  induction tries generalizing i with
  | zero => exact Nat.le_refl 0
  | succ tries ih =>
    rw [skipped]
    split
    · exact Nat.succ_le_succ (ih i.next)
    · exact Nat.zero_le _

theorem firstFree_eq (r : Timers) (tries : Nat) (i : TimerId) :
    r.firstFree tries i = TimerId.next^[r.skipped tries i] i := by
  induction tries generalizing i with
  | zero => rfl
  | succ tries ih =>
    rw [firstFree, skipped]
    split
    · rw [ih, Function.iterate_succ_apply]
    · rfl

theorem contains_of_lt_skipped (skips : k < r.skipped tries i) :
    r.contains (TimerId.next^[k] i) = true := by
  induction tries generalizing i k with
  | zero => cases skips
  | succ tries ih =>
    rw [skipped] at skips
    split at skips
    · rename_i active
      cases k with
      | zero => exact active
      | succ k =>
        have later := ih (Nat.lt_of_succ_lt_succ skips)
        exact later
    · cases skips

theorem contains_of_skipped_lt (stops : r.skipped tries i < tries) :
    r.contains (r.firstFree tries i) = false := by
  induction tries generalizing i with
  | zero => cases stops
  | succ tries ih =>
    rw [skipped] at stops
    rw [firstFree]
    split at stops
    · rename_i active
      rw [if_pos active]
      exact ih (Nat.lt_of_succ_lt_succ stops)
    · rename_i free
      rw [if_neg free]
      simpa using free

theorem finds_of_free (free : r.contains (r.firstFree tries i) = false) :
    r.Finds i (r.skipped tries i) (r.firstFree tries i) := by
  induction tries generalizing i with
  | zero => exact .free free
  | succ tries ih =>
    rw [firstFree] at free ⊢
    rw [skipped]
    split
    · rename_i active
      rw [if_pos active] at free
      exact .taken active (ih free)
    · rename_i inactive
      exact .free (by simpa using inactive)

/-- Of one id more than are active, one is free. -/
theorem exists_free (few : r.active.length < 2 ^ 32 - 1) (i : TimerId) :
    ∃ k ≤ r.active.length, r.contains (TimerId.next^[k] i) = false := by
  by_contra none_free
  have all_active : ∀ k ≤ r.active.length, r.contains (TimerId.next^[k] i) = true := by
    intro k le
    by_contra free
    exact none_free ⟨k, le, by simpa using free⟩
  let tried := (List.range (r.active.length + 1)).map fun k => TimerId.next^[k] i
  have different : tried.Nodup := by
    refine List.nodup_range.map_on fun k mem l mem' same => ?_
    have lt := List.mem_range.mp mem
    have lt' := List.mem_range.mp mem'
    exact i.iterate_next_inj (by omega) (by omega) same
  have active : tried ⊆ r.keys := by
    intro id mem
    obtain ⟨k, among, rfl⟩ := List.mem_map.mp mem
    have contains := all_active k (Nat.le_of_lt_succ (List.mem_range.mp among))
    obtain ⟨e, here, key⟩ := List.any_eq_true.mp contains
    exact List.mem_map.mpr ⟨e, here, of_decide_eq_true key⟩
  have fits := (different.subperm active).length_le
  rw [List.length_map, List.length_range, Registry.keys, List.length_map] at fits
  exact absurd fits (Nat.not_succ_le_self _)

/-- Unless all ids are skipped, the search ends at one that is free. -/
theorem finds_freeFrom (few : r.skips i < 2 ^ 32 - 1) : r.Finds i (r.skips i) (r.freeFrom i) := by
  apply finds_of_free
  rcases Nat.lt_or_eq_of_le (r.skipped_le r.active.length i) with stops | all
  · exact contains_of_skipped_lt stops
  · obtain ⟨k, le, free⟩ := exists_free (by rw [← all]; exact few) i
    rcases Nat.lt_or_eq_of_le le with lt | rfl
    · rw [contains_of_lt_skipped (by rw [all]; exact lt)] at free
      cases free
    · rwa [firstFree_eq, all]

/-- The ids are numbered on as long as none is left out. -/
theorem freeFrom_toNat (few : r.skips i < 2 ^ 32 - 1) (room : i.val.toNat + r.skips i < 2 ^ 32) :
    (r.freeFrom i).val.toNat = i.val.toNat + r.skips i := by
  rw [freeFrom, firstFree_eq, ← skips, i.toNat_iterate_next few, if_pos room]

theorem Finds.inactive (finds : r.Finds i k id) : r.contains id = false := by
  induction finds with
  | free inactive => exact inactive
  | taken _ _ ih => exact ih

end Timers

variable {Obj τ : Type} [Facility τ] {E : Embedder Obj τ}

def World.nextTimer (w : World Obj τ) (c : ContextId) : Nat :=
  (w.context? c).elim 1 fun a => a.nextTimer.val.toNat

omit [Facility τ] in
theorem World.nextTimer_of_context? {w : World Obj τ} {c : ContextId} {a : Context}
    (found : w.context? c = some a) : w.nextTimer c = a.nextTimer.val.toNat := by
  rw [nextTimer, found, Option.elim_some]

namespace Execution

variable {x : Execution E} {c : ContextId} {m n : Nat} {mode : TimerMode} {callback : Value}
  {delay : Duration} {arguments : List Value} {a : Context}

/-- How many ids of the context are used up in the next step: a timer that is set gets one, and some
are skipped before. -/
def spends (x : Execution E) (c : ContextId) : Nat :=
  match x.performed?, x.world.context? c with
  | some (.setTimer c' ..), some a =>
    if c' = c then a.timers.skips a.nextTimer + 1 else 0
  | _, _ => 0

/-- How many ids of the context have been issued or skipped in the first `n` steps. -/
def spent [Traced Obj] (x : Execution E) (c : ContextId) : Nat → Nat
  | 0 => 0
  | n + 1 => x.spent c n + (x.run n).spends c

theorem Performs.spends (performs : x.Performs (.setTimer c mode callback delay arguments))
    (found : x.world.context? c = some a) :
    x.spends c = a.timers.skips a.nextTimer + 1 := by
  simp only [Execution.spends, performs.performed?, found, if_true]

theorem spends_eq_zero (no_set : ∀ a mode callback delay arguments,
    x.world.context? c = some a → ¬ x.Performs (.setTimer c mode callback delay arguments)) :
    x.spends c = 0 := by
  unfold spends
  split
  · rename_i next found
    apply if_neg
    rintro rfl
    exact no_set _ _ _ _ _ found (performs_of_performed? next)
  · rfl

theorem Changes.nextTimer {a b : Context} (changes : x.Changes c a b)
    (no_set : ∀ mode callback delay arguments,
      ¬ x.Performs (.setTimer c mode callback delay arguments)) : b.nextTimer = a.nextTimer := by
  cases changes with
  | timerSet performs => exact absurd performs (no_set _ _ _ _)
  | disposed =>
    rw [Context.dispose]
    split <;> rfl
  | timerInstalled | timerRemoved | timerFired | levelSet | timerRetired | frameRequested
  | frameRegistered | frameCancelled | frameTaken | rejectionTracked | handlerTracked | batchTaken
  | drainBegun | drainEnded | classesKept | reclaimed | kept => rfl

variable [Traced Obj]

theorem spent_succ (x : Execution E) (c : ContextId) (n : Nat) :
    x.spent c (n + 1) = x.spent c n + (x.run n).spends c := rfl

theorem spent_mono (x : Execution E) (c : ContextId) (le : m ≤ n) : x.spent c m ≤ x.spent c n := by
  induction le with
  | refl => exact Nat.le_refl _
  | step _ ih =>
    rw [spent_succ]
    exact Nat.le_add_right_of_le ih

theorem Performs.id_toNat
    (performs : (x.run n).Performs (.setTimer c mode callback delay arguments))
    (found : (x.run n).world.context? c = some a) (few : x.spent c (n + 1) < 2 ^ 32 - 1)
    (here : (x.run n).world.nextTimer c = x.spent c n + 1) :
    (a.timers.freeFrom a.nextTimer).val.toNat = x.spent c (n + 1) := by
  have spends := performs.spends found
  rw [spent_succ] at few ⊢
  rw [World.nextTimer_of_context? found] at here
  rw [Timers.freeFrom_toNat (by omega) (by omega)]
  omega

theorem nextTimer_succ (few : x.spent c (n + 1) < 2 ^ 32 - 1)
    (here : (x.run n).world.nextTimer c = x.spent c n + 1) :
    (x.run (n + 1)).world.nextTimer c = x.spent c (n + 1) + 1 := by
  by_cases sets : ∃ a mode callback delay arguments, (x.run n).world.context? c = some a ∧
      (x.run n).Performs (.setTimer c mode callback delay arguments)
  · obtain ⟨a, mode, callback, delay, arguments, found, performs⟩ := sets
    have after : (x.run (n + 1)).world.context? c =
        some (a.setTimer (a.newTimer callback delay arguments mode)) :=
      performs.run_succ ▸ Command.setTimer_context? found mode callback delay arguments
    have id := performs.id_toNat found few here
    rw [World.nextTimer_of_context? after, ← id]
    apply nextNumber_toNat
    have least : (a.timers.freeFrom a.nextTimer).val.toNat + 1 < 2 ^ 32 := by omega
    exact least
  · have no_set : ∀ a mode callback delay arguments, (x.run n).world.context? c = some a →
        ¬ (x.run n).Performs (.setTimer c mode callback delay arguments) :=
      fun _ _ _ _ _ found performs => sets ⟨_, _, _, _, _, found, performs⟩
    rw [spent_succ, spends_eq_zero no_set, Nat.add_zero, ← here]
    have outcome := (x.run_rewrites n).outcome c
    generalize before : (x.run n).world.context? c = o at outcome
    generalize after : (x.run (n + 1)).world.context? c = o' at outcome
    rw [World.nextTimer, World.nextTimer, before, after]
    cases outcome with
    | absent | created => rfl
    | changed changes =>
      rw [Option.elim_some, Option.elim_some, changes.nextTimer (no_set _ · · · · before)]

/-- As long as ids are left, the number of the next one tells how many have been used up. -/
theorem nextTimer_run (blank : x.Blank) (few : x.spent c n < 2 ^ 32 - 1) :
    (x.run n).world.nextTimer c = x.spent c n + 1 := by
  induction n with
  | zero =>
    rw [run_zero, World.nextTimer, World.context?, blank.no_context]
    rfl
  | succ n ih =>
    have less := x.spent_mono c (Nat.le_add_right n 1)
    exact nextTimer_succ few (ih (by omega))

theorem answer_toNat_le (blank : x.Blank) (few : x.spent c (n + 1) < 2 ^ 32 - 1)
    (performs : (x.run n).Performs (.setTimer c mode callback delay arguments)) :
    (Command.setTimerIn (x.run n).world c mode callback delay arguments).answer.val.toNat ≤
      x.spent c (n + 1) := by
  cases found : (x.run n).world.context? c with
  | none =>
    simp only [Command.setTimerIn, found]
    exact Nat.zero_le _
  | some a =>
    have less := x.spent_mono c (Nat.le_add_right n 1)
    rw [Command.setTimer_answer found]
    exact Nat.le_of_eq (performs.id_toNat found few (nextTimer_run blank (by omega)))

omit [Traced Obj] in
theorem setTimer_elsewhere {w : World Obj τ} {c' : ContextId} (other : c' ≠ c) :
    (Command.setTimerIn w c mode callback delay arguments).world.context? c' = w.context? c' := by
  have kept (a b : Context) (here : b.id = c) :
      (b.setTimer (a.newTimer callback delay arguments mode)).id = c := here
  have same (a : Context) :
      (w.update c (·.setTimer (a.newTimer callback delay arguments mode))).context? c' =
        w.context? c' := by
    rw [w.context?_update (kept a)]
    simp only [if_neg other, Option.map_id']
  unfold Command.setTimerIn
  split
  · rename_i a found
    dsimp only
    split <;> exact same a
  · rfl

structure IssuesFresh (x : Execution E) (c : ContextId) (n : Nat) (id : TimerId) (t : Timer) :
    Prop where
  own : t.id = id
  searched : ∃ a, (x.run n).world.context? c = some a ∧
    a.timers.Finds a.nextTimer (a.timers.skips a.nextTimer) id
  numbered : id.val.toNat = x.spent c (n + 1)
  largest : ∀ m < n, ∀ mode callback delay arguments,
    (x.run m).Performs (.setTimer c mode callback delay arguments) →
      (Command.setTimerIn (x.run m).world c mode callback delay arguments).answer.val.toNat <
        id.val.toNat
  inactive : ((x.run n).world.timers c).contains id = false
  named : Registry.entry? ((x.run (n + 1)).world.timers c) id =
    some ⟨id, ((x.run n).world.timers c).accepted, t⟩
  active : ((x.run (n + 1)).world.timers c).active =
    ((x.run n).world.timers c).active ++ [⟨id, ((x.run n).world.timers c).accepted, t⟩]
  abandoned : ((x.run (n + 1)).world.timers c).abandoned = ((x.run n).world.timers c).abandoned
  elsewhere : ∀ c' ≠ c, (x.run (n + 1)).world.timers c' = (x.run n).world.timers c'

/-- As long as ids are left in a context that may run script, a timer that is set in it is installed
under an id of its own. -/
theorem set_timer_gets_fresh_id (blank : x.Blank) (few : x.spent c (n + 1) < 2 ^ 32 - 1)
    (found : (x.run n).world.context? c = some a) (valid : a.valid = true)
    (performs : (x.run n).Performs (.setTimer c mode callback delay arguments)) :
    x.IssuesFresh c n
      (Command.setTimerIn (x.run n).world c mode callback delay arguments).answer
      (a.newTimer callback delay arguments mode) := by
  have spends := performs.spends found
  have used := x.spent_succ c n
  have here := nextTimer_run (n := n) (c := c) blank (by omega)
  have finds := Timers.finds_freeFrom (r := a.timers) (i := a.nextTimer) (by omega)
  have id := performs.id_toNat found few here
  have world := performs.run_succ
  have context : (x.run (n + 1)).world.context? c =
      some (a.setTimer (a.newTimer callback delay arguments mode)) :=
    world ▸ Command.setTimer_context? found mode callback delay arguments
  have after : (x.run (n + 1)).world.timers c = a.timers.accept
      (a.timers.freeFrom a.nextTimer) (a.newTimer callback delay arguments mode) := by
    rw [World.timers_of_context? context, Context.setTimer, valid]
    rfl
  have before := World.timers_of_context? found
  rw [Command.setTimer_answer found]
  constructor
  · rfl
  · exact ⟨a, found, finds⟩
  · exact id
  · intro m lt mode callback delay arguments earlier
    have mono : x.spent c (m + 1) ≤ x.spent c n := x.spent_mono c lt
    have le := answer_toNat_le blank (by omega) earlier
    omega
  · rw [before]
    exact finds.inactive
  · rw [after, before, Registry.entry?_accept finds.inactive, if_pos rfl]
  · rw [after, before, Registry.accept_active finds.inactive]
  · rw [after, before, Registry.accept, if_neg (by simp [finds.inactive])]
  · intro c' other
    have same : (x.run (n + 1)).world.context? c' = (x.run n).world.context? c' :=
      world ▸ setTimer_elsewhere other
    rw [World.timers, World.timers, same]

def installedAhead : Execution (plan fun _ : Call (List Handle) => ([] : List (Order _ Manual))) :=
  planned {} _ [.command (.createContext none), .command (.setTimer ⟨1⟩ .once .null .zero []),
    .command (.installTimer ⟨1⟩ ⟨2⟩
      { id := ⟨2⟩, context := ⟨1⟩, callback := .null, mode := .once }),
    .command (.setTimer ⟨1⟩ .repeating .null .zero [])]

/-- The second timer that is set skips the id that is taken. -/
theorem installed_id_is_skipped : ∃ t, installedAhead.IssuesFresh ⟨1⟩ 3 ⟨3⟩ t ∧
    t.mode = .repeating ∧ ((installedAhead.run 4).world.timers ⟨1⟩).keys = [⟨1⟩, ⟨2⟩, ⟨3⟩] := by
  have few : installedAhead.spent ⟨1⟩ 4 < 2 ^ 32 - 1 := by decide +kernel
  have fresh := set_timer_gets_fresh_id ⟨rfl, rfl⟩ few rfl rfl (plan_performs rfl)
  exact ⟨_, fresh, rfl, by decide +kernel⟩

end Execution

end HostBridge
