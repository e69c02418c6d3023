import HostBridge.Proofs.Execution.Plan
import HostBridge.Proofs.Timers.Firing
/-!
# The retirement of one-shot timers

The last thing that the fire of a one-shot timer does is to remove what is active under the timer's
id by then. Up to there the fire itself removes nothing, so it removes its timer alone unless the
script that it ran has put another timer in the place of its own.
-/

namespace HostBridge.Execution

variable {Obj τ : Type} [Facility τ] {E : Embedder Obj τ} {x y : Execution E} {c : ContextId}
  {e : Entry TimerId Timer} {error : Option String}

def nesting (x : Execution E) : Nat := x.stack.countP Item.isCode

variable [Traced Obj]

/-- The fire of the timer, which is about to begin, returns with the `n`th step. Its own steps, those
in which no code runs that it has called, remove the timer and no other timer of any context. -/
structure RemovesAlone (x : Execution E) (c : ContextId) (e : Entry TimerId Timer) (n : Nat) :
    Prop where
  removed : e ∉ ((x.run n).world.timers c).active
  spared : ∀ m < n, (x.run m).nesting = x.nesting →
    ∀ c' d, d ∈ ((x.run m).world.timers c').active → (c', d) ≠ (c, e) →
      d ∈ ((x.run (m + 1)).world.timers c').active

omit [Traced Obj] in
theorem TimerChange.active_eq {r r' : Timers} {t : Task Obj} (change : x.TimerChange c r r')
    (next : x.AtTask t) (no_retirement : ∀ c id, t ≠ .retire c id) : r'.active = r.active := by
  have no_command : ∀ command, ¬ x.Performs command := by
    intro command performs
    exact performs.not_atTask t next
  cases change with
  | kept | reclaimed => rfl
  | offered _ offers =>
    cases offers with
    | set performs | installed performs => exact absurd performs (no_command _)
  | removed performs =>
    rcases performs with performs | performs
    · exact absurd performs (no_command _)
    · exact absurd performs (no_command _)
  | @retired id retires =>
    obtain ⟨_, top⟩ := next
    obtain ⟨_, here⟩ := retires
    obtain ⟨same, _⟩ := List.cons.inj (top.symm.trans here)
    exact absurd (Item.task.inj same) (no_retirement c id)
  | abandoned performs => exact absurd performs (no_command _)

theorem AtTask.active_eq {t : Task Obj} {n : Nat} (next : (x.run n).AtTask t)
    (no_retirement : ∀ c id, t ≠ .retire c id) (c : ContextId) :
    ((x.run (n + 1)).world.timers c).active = ((x.run n).world.timers c).active :=
  (x.run_timers c n).active_eq next no_retirement

theorem not_unfinished_of_retire {i : Item Obj} {rest : List (Item Obj)} {n : Nat} {id : TimerId}
    (top : x.stack = i :: rest) (here : (x.run n).stack = .task (.retire c id) :: rest) :
    ¬ x.Unfinished (n + 1) := by
  intro unfinished
  obtain ⟨p, stack, _⟩ := (x.run_rewrites n).of_task here fun k same => nomatch same
  have past : (x.run (n + 1)).stack = rest := stack
  have long := unfinished (n + 1) (Nat.le_refl _)
  rw [top, past, List.length_cons] at long
  omega

/-- After its first step, and until it is done with, the fire of a one-shot timer has the retirement
before it, and before that tasks of the fire or code that it has called. -/
theorem Fires.retires_later {n : Nat} {rest : List (Item Obj)} (fires : x.Fires c e error)
    (once : e.item.isOneShot = true) (top : x.stack = .task (.fire c e.key error) :: rest)
    (unfinished : x.Unfinished (n + 1)) :
    ∃ pre, (x.run (n + 1)).stack = pre ++ .task (.retire c e.key) :: rest ∧
      Confined τ Task.OfFire pre := by
  induction n with
  | zero =>
    obtain ⟨before, rest', here, stack, _⟩ := fires.stack (x.run_rewrites 0)
    obtain ⟨_, rfl⟩ := List.cons.inj (top.symm.trans here)
    rw [Task.fireTasks_eq, Task.retirement, once, if_pos rfl, List.map_append,
      List.append_assoc] at stack
    exact ⟨_, stack, .own _ fun t mem => Task.ofFire_of_mem_firing mem⟩
  | succ n ih =>
    obtain ⟨pre, here, confined⟩ := ih (unfinished.of_le (Nat.le_succ _))
    by_cases done : pre = []
    · rw [done, List.nil_append] at here
      exact absurd unfinished (not_unfinished_of_retire top here)
    · exact (x.run_rewrites (n + 1)).confined Task.keeps_ofFire confined here done

omit [Traced Obj] in
theorem nesting_of_stack {i : Item Obj} (pre : List (Item Obj)) {rest : List (Item Obj)}
    (here : x.stack = pre ++ i :: rest) (task : i.isCode = false) :
    x.nesting = pre.countP Item.isCode + rest.countP Item.isCode := by
  rw [nesting, here, List.countP_append, List.countP_cons_of_neg (by simp [task])]

theorem Fires.spares {n : Nat} (fires : x.Fires c e error) (once : e.item.isOneShot = true)
    (unfinished : x.Unfinished (n + 1)) (own : (x.run n).nesting = x.nesting) (c' : ContextId) :
    ((x.run (n + 1)).world.timers c').active = ((x.run n).world.timers c').active := by
  obtain ⟨rest, top⟩ := fires.next
  cases n with
  | zero => exact AtTask.active_eq (n := 0) fires.next (fun _ _ same => nomatch same) c'
  | succ n =>
    obtain ⟨pre, here, confined⟩ := fires.retires_later once top (unfinished.of_le (Nat.le_succ _))
    have no_code : pre.countP Item.isCode = 0 := by
      rw [nesting_of_stack pre here rfl, nesting_of_stack [] top rfl] at own
      simp only [List.countP_nil] at own
      omega
    have more : pre ≠ [] := by
      rintro rfl
      exact not_unfinished_of_retire top here unfinished
    obtain ⟨t, next, of_fire⟩ := confined.atTask here more no_code
    refine next.active_eq ?_ c'
    rintro c id rfl
    rcases of_fire with trails | leads
    · exact trails
    · exact leads

theorem Fires.retires_last {n : Nat} {rest : List (Item Obj)} (fires : x.Fires c e error)
    (once : e.item.isOneShot = true) (top : x.stack = .task (.fire c e.key error) :: rest)
    (finishes : x.FinishesAt (n + 1)) :
    (x.run n).stack = .task (.retire c e.key) :: rest ∧
      (x.run (n + 1)).world =
        (x.run n).world.update c fun a => { a with timers := a.timers.remove e.key } := by
  have last : (x.run (n + 1)).stack = rest := finishes.stack top
  cases n with
  | zero =>
    obtain ⟨before, rest', here, stack, _⟩ := fires.stack (x.run_rewrites 0)
    obtain ⟨_, rfl⟩ := List.cons.inj (top.symm.trans here)
    have short := congrArg List.length (stack.symm.trans last)
    rw [Task.fireTasks_eq, Task.retirement, once] at short
    simp at short
    omega
  | succ n =>
    obtain ⟨pre, here, _⟩ :=
      fires.retires_later once top (finishes.unfinished (Nat.lt_succ_self (n + 1)))
    by_cases done : pre = []
    · rw [done, List.nil_append] at here
      obtain ⟨p, _, world⟩ := (x.run_rewrites (n + 1)).of_task here fun k same => by cases same
      exact ⟨here, world⟩
    · obtain ⟨pre', stack⟩ := (x.run_rewrites (n + 1)).below_append here done
      have short := congrArg List.length (stack.symm.trans last)
      simp at short
      omega

omit [Facility τ] [Traced Obj] in
theorem timers_retire (w : World Obj τ) (c c' : ContextId) (id : TimerId) :
    (w.update c fun a => { a with timers := a.timers.remove id }).timers c' =
      if c' = c then (w.timers c').remove id else w.timers c' := by
  have ids : ∀ a : Context, a.id = c → { a with timers := a.timers.remove id }.id = c :=
    fun _ here => here
  have updated := w.context?_update ids c'
  rw [World.timers, updated, World.timers]
  cases found : w.context? c' with
  | none =>
    split
    · rfl
    · rfl
  | some a =>
    split
    · rfl
    · rfl

section Fire

variable {m n : Nat}

theorem Fires.gone (blank : x.Blank) (fires : (x.run m).Fires c e error)
    (once : e.item.isOneShot = true) (finishes : (x.run m).FinishesAt (n + 1)) :
    ((x.run (m + (n + 1))).world.timers c).Gone e := by
  constructor
  · have numbered := (timers_sound blank c m).numbered e fires.active
    exact Nat.lt_of_lt_of_le numbered (x.accepted_mono c (Nat.le_add_right m _))
  · obtain ⟨_, top⟩ := fires.next
    obtain ⟨_, world⟩ := fires.retires_last once top finishes
    have sound := timers_sound blank c (m + n)
    intro still
    rw [run_add] at sound still
    rw [world, timers_retire, if_pos rfl] at still
    exact sound.key_ne_of_mem_remove still rfl

theorem Fires.removesAlone_iff (blank : x.Blank) (fires : (x.run m).Fires c e error)
    (once : e.item.isOneShot = true) (finishes : (x.run m).FinishesAt (n + 1)) :
    (x.run m).RemovesAlone c e (n + 1) ↔
      ∀ d, Registry.entry? ((x.run (m + n)).world.timers c) e.key = some d → d = e := by
  obtain ⟨rest, top⟩ := fires.next
  obtain ⟨last, world⟩ := fires.retires_last once top finishes
  have sound := timers_sound blank c (m + n)
  have gone := fires.gone blank once finishes
  rw [run_add] at sound gone ⊢
  constructor
  · intro alone d entry
    by_contra other
    have own : ((x.run m).run n).nesting = (x.run m).nesting := by
      rw [nesting_of_stack [] last rfl, nesting_of_stack [] top rfl]
    have spared := alone.spared n (Nat.lt_succ_self n) own c d (Registry.mem_of_entry entry)
      (fun same => other (Prod.mk.inj same).2)
    rw [world, timers_retire, if_pos rfl] at spared
    exact sound.key_ne_of_mem_remove spared (Registry.key_of_entry entry)
  · intro only
    refine ⟨gone.inactive, ?_⟩
    intro l lt own c' d mem other
    rcases Nat.lt_succ_iff_lt_or_eq.mp lt with earlier | rfl
    · rwa [fires.spares once (finishes.unfinished (Nat.succ_lt_succ earlier)) own c']
    · rw [world, timers_retire]
      split
      · rename_i here
        subst here
        apply Registry.mem_remove_of_ne mem
        intro same
        have entry := sound.entry?_key mem
        rw [same] at entry
        exact other (Prod.ext rfl (only d entry))
      · exact mem

theorem AtTask.fire_idle (next : x.AtTask (.fire c e.key error))
    (nothing : x.world.ready? c e.key = none) (finishes : x.FinishesAt (n + 1)) : n = 0 := by
  obtain ⟨rest, top⟩ := next
  obtain ⟨p, stack, _⟩ := (x.run_rewrites 0).of_task top fun k same => nomatch same
  rw [run_zero, (Task.run_fire_of_none nothing _ p error).1] at stack
  by_contra more
  have long := finishes.1 1 (by omega)
  rw [top, stack, List.length_cons] at long
  exact Nat.not_succ_le_self _ long

/-- The fire of an active one-shot timer removes it in a context that may run script, and it removes
that timer alone unless another one is active under its id at the end. -/
theorem fire_removes_alone_iff (blank : x.Blank) (next : (x.run m).AtTask (.fire c e.key error))
    (active : e ∈ ((x.run m).world.timers c).active) (once : e.item.isOneShot = true)
    (finishes : (x.run m).FinishesAt (n + 1)) :
    ((x.run m).world.isValid c = true → e ∉ ((x.run (m + (n + 1))).world.timers c).active) ∧
      ((x.run m).RemovesAlone c e (n + 1) ↔ (x.run m).world.isValid c = true ∧
        ∀ d, Registry.entry? ((x.run (m + n)).world.timers c) e.key = some d → d = e) := by
  have sound := timers_sound blank c m
  cases valid : (x.run m).world.isValid c with
  | true =>
    have fires : (x.run m).Fires c e error := ⟨next, World.ready?_of_active sound active valid⟩
    refine ⟨fun _ => (fires.gone blank once finishes).inactive, ?_⟩
    rw [fires.removesAlone_iff blank once finishes]
    exact ⟨fun only => ⟨rfl, only⟩, fun both => both.2⟩
  | false =>
    have nothing : (x.run m).world.ready? c e.key = none := by
      cases ready : (x.run m).world.ready? c e.key with
      | none => rfl
      | some d => exact absurd (World.ready?_valid ready) (by simp [valid])
    obtain rfl := next.fire_idle nothing finishes
    have still := AtTask.active_eq (n := 0) next (fun _ _ same => nomatch same) c
    refine ⟨(fun may_run => nomatch may_run), ?_⟩
    constructor
    · intro alone
      exact absurd (still ▸ active) alone.removed
    · intro both
      exact nomatch both.1

end Fire

def ownTimer (id : TimerId) (mode : TimerMode) : Timer :=
  { id, context := ⟨1⟩, callback := .null, mode }

def onCallback (orders : List (Order (List Handle) Manual)) :
    Call (List Handle) → List (Order (List Handle) Manual)
  | .function .. => orders
  | _ => []

def fireSeven (body : Call (List Handle) → List (Order (List Handle) Manual)) :
    Execution (plan body) :=
  planned {} body [.command (.createContext none),
    .command (.installTimer ⟨1⟩ ⟨7⟩ (ownTimer ⟨7⟩ .once)), .procedure (.fire ⟨1⟩ ⟨7⟩ none)]

def installsBeside : Call (List Handle) → List (Order (List Handle) Manual) :=
  onCallback [.command (.installTimer ⟨1⟩ ⟨8⟩ (ownTimer ⟨8⟩ .once))]

theorem installed_beside_stays :
    ((fireSeven installsBeside).run 3).RemovesAlone ⟨1⟩ ⟨⟨7⟩, 0, ownTimer ⟨7⟩ .once⟩ 11 := by
  have next : ((fireSeven installsBeside).run 3).AtTask (.fire ⟨1⟩ ⟨7⟩ none) := ⟨_, rfl⟩
  refine (fire_removes_alone_iff (n := 10) ⟨rfl, rfl⟩ next ?_ rfl ?_).2.mpr ⟨rfl, ?_⟩
  · decide +kernel
  · exact ⟨by decide +kernel, by decide +kernel⟩
  · intro d entry
    exact (Option.some.inj entry).symm

def installsInstead : Call (List Handle) → List (Order (List Handle) Manual) :=
  onCallback [.command (.clearTimer ⟨1⟩ ⟨7⟩),
    .command (.installTimer ⟨1⟩ ⟨7⟩ (ownTimer ⟨7⟩ .repeating))]

theorem installed_instead_goes :
    (fireSeven installsInstead).Blank ∧
      ((fireSeven installsInstead).run 3).Fires ⟨1⟩ ⟨⟨7⟩, 0, ownTimer ⟨7⟩ .once⟩ none ∧
      ((fireSeven installsInstead).run 3).FinishesAt 12 ∧
      ¬ ((fireSeven installsInstead).run 3).RemovesAlone ⟨1⟩ ⟨⟨7⟩, 0, ownTimer ⟨7⟩ .once⟩ 12 := by
  refine ⟨⟨rfl, rfl⟩, ⟨⟨_, rfl⟩, rfl⟩, ⟨by decide +kernel, by decide +kernel⟩, ?_⟩
  intro alone
  have spared := alone.spared 11 (by decide) (by decide +kernel) ⟨1⟩
    ⟨⟨7⟩, 1, ownTimer ⟨7⟩ .repeating⟩ (by decide +kernel) (by decide)
  revert spared
  decide +kernel

end HostBridge.Execution
