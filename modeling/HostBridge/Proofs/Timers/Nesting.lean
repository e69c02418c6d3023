import HostBridge.Proofs.Execution.Turns
import HostBridge.Proofs.Timers.Retirement
import HostBridge.Proofs.Timers.Setting
/-!
# Nesting levels

While a timer's callback runs the level of its context is that of the timer, and what the level was
before waits on the stack. So the levels that wait belong, from the top down, to the callbacks that
are in progress, and a timer that is set is one level deeper than the innermost of them.
-/

namespace HostBridge

variable {Obj τ : Type}

def Item.restores? (c : ContextId) : Item Obj → Option UInt32
  | task (.setLevel c' before) => if c' = c then some before else none
  | _ => none

@[simp] theorem Item.restores?_setLevel (c : ContextId) (before : UInt32) :
    restores? c (.task (.setLevel c before) : Item Obj) = some before := if_pos rfl

def World.level (w : World Obj τ) (c : ContextId) : UInt32 := (w.context? c).elim 0 Context.level

theorem World.level_of_context? {w : World Obj τ} {c : ContextId} {a : Context}
    (found : w.context? c = some a) : w.level c = a.level := by
  rw [level, found, Option.elim_some]

theorem restores?_eq_none {c : ContextId} {t : Task Obj}
    (other : ∀ before, t ≠ .setLevel c before) : Item.restores? c (.task t) = none := by
  cases t with
  | setLevel c' before =>
    apply if_neg
    rintro rfl
    exact other before rfl
  | _ => rfl

section

variable {w : World Obj τ} {c : ContextId} {before : UInt32}

theorem setLevel_notMem_batch {b : Rejections.Batch} {c' : ContextId} :
    (.setLevel c before : Task Obj) ∉ b.tasks c' := by
  simp [Rejections.Batch.tasks]

theorem setLevel_notMem_dropped {n : Nat} {unreferenced : Bool} :
    .setLevel c before ∉ (w.dropObject n unreferenced).2 := by
  unfold World.dropObject
  split <;> simp

theorem setLevel_notMem_start {p : Procedure} :
    .setLevel c before ∉ (Procedure.start w p).first := by
  intro mem
  cases p with
  | release => exact setLevel_notMem_dropped mem
  | collect =>
    simp only [Procedure.start] at mem
    split at mem <;> simp [Procedure.collection] at mem
  | process => exact setLevel_notMem_batch mem
  | _ => simp [Procedure.start] at mem

theorem setLevel_notMem_resume {types : TypeId → TypeDescriptor} {p : Progress} {k : Call Obj}
    {r : k.Reply} : .setLevel c before ∉ (k.resume types w p r).first := by
  intro mem
  cases k with
  | createClass =>
    rcases r with _ | objects
    · cases mem
    · simp only [Call.resume] at mem
      split at mem <;> simp at mem
  | function | install => rcases r with _ | _ <;> simp [Call.resume] at mem
  | job => rcases r with _ | _ | _ <;> simp [Call.resume] at mem
  | _ => simp [Call.resume] at mem

theorem ready_of_setLevel_mem [Traced Obj] {env : Surroundings} {p : Progress} {t : Task Obj}
    (mem : .setLevel c before ∈ (t.run env w p).first) :
    ∃ id e, t = .fire c id none ∧ w.ready? c id = some e := by
  cases t with
  | fire c' id error =>
    cases ready : w.ready? c' id with
    | none =>
      rw [(Task.run_fire_of_none ready env p error).1] at mem
      cases mem
    | some e =>
      obtain ⟨level, first, _⟩ := Task.run_fire ready env p error
      rw [first, Task.fireTasks_eq] at mem
      cases error with
      | some => simp [Task.firing, Task.retirement] at mem
      | none =>
        obtain ⟨rfl, _⟩ : c = c' ∧ before = level := by
          simpa [Task.firing, Task.retirement] using mem
        exact ⟨id, e, rfl, ready⟩
  | flush => exact absurd mem setLevel_notMem_batch
  | letGo =>
    simp only [Task.run] at mem
    split at mem <;> simp [setLevel_notMem_dropped] at mem
  | frames =>
    simp only [Task.run] at mem
    split at mem
    · split at mem <;> simp at mem
    · cases mem
  | traceRoots r | traceComplete r => cases r <;> simp [Task.run] at mem
  | dispatch | drain | frame | classObjects | defineClass =>
    simp only [Task.run] at mem
    repeat' split at mem
    all_goals simp at mem
  | call | setLevel | retire | endDrain | markAndSweep | conclude => simp [Task.run] at mem

end

variable [Facility τ] {E : Embedder Obj τ}

namespace Execution

variable {x y : Execution E} {c : ContextId}

theorem Changes.level {a b : Context} (changes : x.Changes c a b)
    (no_fire : ∀ e, ¬ x.Fires c e none) (no_restore : ∀ level, ¬ x.AtTask (.setLevel c level))
    (found : x.world.context? c = some a) : b.level = a.level := by
  cases changes with
  | @timerFired id error e fires valid entry =>
    cases error with
    | some => rfl
    | none =>
      have ready : x.world.ready? c id = some e := World.ready?_eq_some.mpr ⟨a, found, valid, entry⟩
      obtain rfl := Registry.key_of_entry entry
      exact absurd ⟨fires, ready⟩ (no_fire e)
  | levelSet sets => exact absurd sets (no_restore _)
  | disposed =>
    rw [Context.dispose]
    split <;> rfl
  | timerSet | timerInstalled | timerRemoved | timerRetired | frameRequested | frameRegistered
  | frameCancelled | frameTaken | rejectionTracked | handlerTracked | batchTaken | drainBegun
  | drainEnded | classesKept | reclaimed | kept => rfl

theorem Outcome.level {o o' : Option Context} (outcome : x.Outcome c o o')
    (no_fire : ∀ e, ¬ x.Fires c e none) (no_restore : ∀ level, ¬ x.AtTask (.setLevel c level))
    (found : x.world.context? c = o) : o'.elim 0 Context.level = o.elim 0 Context.level := by
  cases outcome with
  | absent => rfl
  | created => rfl
  | changed changes => exact changes.level no_fire no_restore found

variable [Traced Obj]

inductive Relevels (x y : Execution E) (c : ContextId) : Prop
  | fired {e : Entry TimerId Timer} {pre rest : List (Item Obj)} (fires : x.Fires c e none)
      (top : x.stack = .task (.fire c e.key none) :: rest)
      (stack : y.stack = .task (.call (Task.timerCall c e)) ::
        .task (.setLevel c (x.world.level c)) :: (pre ++ rest))
      (none_saved : pre.filterMap (Item.restores? c) = [])
      (level : y.world.level c = e.item.level)
  | restored {before : UInt32} {rest : List (Item Obj)}
      (top : x.stack = .task (.setLevel c before) :: rest) (stack : y.stack = rest)
      (level : (x.world.context? c).isSome → y.world.level c = before)
  | kept {pushed below : List (Item Obj)} (stack : y.stack = pushed ++ below)
      (none_saved : pushed.filterMap (Item.restores? c) = [])
      (same : x.stack = below ∨ ∃ i, Item.restores? c i = none ∧ x.stack = i :: below)
      (level : y.world.level c = x.world.level c)

omit [Facility τ] [Traced Obj] in
theorem filterMap_restores {first : List (Task Obj)}
    (none_saves : ∀ before, .setLevel c before ∉ first) :
    (first.map Item.task).filterMap (Item.restores? c) = [] := by
  apply List.filterMap_eq_nil_iff.mpr
  intro i mem
  obtain ⟨t, here, rfl⟩ := List.mem_map.mp mem
  apply restores?_eq_none
  rintro before rfl
  exact none_saves before here

theorem Fires.relevels {e : Entry TimerId Timer} (fires : x.Fires c e none)
    (rewrites : Rewrites x y) : x.Relevels y c := by
  obtain ⟨rest, top⟩ := fires.next
  obtain ⟨a, found, valid, entry⟩ := World.ready?_eq_some.mp fires.ready
  obtain ⟨p, stack, _⟩ := rewrites.of_task top fun k same => nomatch same
  obtain ⟨_, _, _, _, world⟩ := fires.stack rewrites
  have kept : ∀ b : Context, b.id = c →
      { b with level := Task.fireLevel e b.level none }.id = c := fun _ here => here
  have called : y.stack = .task (.call (Task.timerCall c e)) ::
      .task (.setLevel c (x.world.level c)) ::
        ((.task (.drain c) :: (Task.retirement c e).map .task) ++ rest) := by
    rw [stack, World.level_of_context? found]
    simp [Task.run, found, valid, entry, Task.fireTasks_eq, Task.firing]
  refine .fired fires top called ?_ ?_
  · unfold Task.retirement
    split <;> rfl
  · rw [World.level, world, World.context?_update_self _ kept, found]
    rfl

theorem Rewrites.relevels (rewrites : Rewrites x y) (c : ContextId) : x.Relevels y c := by
  by_cases fires : ∃ e, x.Fires c e none
  · obtain ⟨e, fires⟩ := fires
    exact fires.relevels rewrites
  by_cases restores : ∃ before, x.AtTask (.setLevel c before)
  · obtain ⟨before, rest, top⟩ := restores
    obtain ⟨p, stack, world⟩ := rewrites.of_task top fun k same => nomatch same
    have kept : ∀ b : Context, b.id = c → { b with level := before }.id = c := fun _ here => here
    refine .restored top stack ?_
    intro here
    obtain ⟨a, found⟩ := Option.isSome_iff_exists.mp here
    rw [World.level, world]
    simp [Task.run, World.context?_update _ kept, found]
  have no_fire := not_exists.mp fires
  have no_restore := not_exists.mp restores
  have level : y.world.level c = x.world.level c :=
    (rewrites.outcome c).level no_fire no_restore rfl
  cases rewrites with
  | idle _ stack | performed _ stack =>
    exact .kept (stack.trans (List.nil_append _).symm) rfl (Or.inl rfl) level
  | began _ stack =>
    exact .kept stack (filterMap_restores fun _ => setLevel_notMem_start) (Or.inl rfl) level
  | returned top stack =>
    exact .kept stack (filterMap_restores fun _ => setLevel_notMem_resume)
      (Or.inr ⟨_, rfl, top⟩) level
  | halted top stack =>
    exact .kept (stack.trans (List.nil_append _).symm) rfl (Or.inr ⟨_, rfl, top⟩) level
  | @called k rest top stack =>
    have pushed : y.stack = [.code k] ++ rest := stack
    exact .kept pushed rfl (Or.inr ⟨_, rfl, top⟩) level
  | @worked _ _ rest top _ stack =>
    refine .kept stack (filterMap_restores ?_) (Or.inr ⟨_, restores?_eq_none ?_, top⟩) level
    · intro before saves
      obtain ⟨id, e, rfl, ready⟩ := ready_of_setLevel_mem saves
      obtain rfl := Registry.key_of_entry (World.ready?_eq_some.mp ready).choose_spec.2.2
      exact no_fire e ⟨⟨rest, top⟩, ready⟩
    · rintro before rfl
      exact no_restore before ⟨rest, top⟩

/-- The levels on this part of the stack, and the current one, belong to callbacks that have been
called: the innermost callback is that of the timer whose level it is, and outside of all callbacks
the level is zero. -/
inductive Levels (x : Execution E) (c : ContextId) (n : Nat) : List (Item Obj) → UInt32 → Prop
  | outside {items : List (Item Obj)} (none_saved : items.filterMap (Item.restores? c) = []) :
      Levels x c n items 0
  | inside {above rest : List (Item Obj)} {e : Entry TimerId Timer} {before : UInt32} {l : Nat}
      (none_saved : above.filterMap (Item.restores? c) = []) (fires : (x.run l).Fires c e none)
      (called : (x.run (l + 1)).stack =
        .task (.call (Task.timerCall c e)) :: .task (.setLevel c before) :: rest)
      (stays : ∀ i, l < i → i ≤ n → .task (.setLevel c before) :: rest <:+ (x.run i).stack)
      (lt : l < n) (outer : Levels x c n rest before) :
      Levels x c n (above ++ .task (.setLevel c before) :: rest) e.item.level

variable {n : Nat} {items rest : List (Item Obj)} {v : UInt32}

/-- What stays on the stack keeps its levels. -/
theorem Levels.succ (levels : x.Levels c n items v) (stays : items <:+ (x.run (n + 1)).stack) :
    x.Levels c (n + 1) items v := by
  induction levels with
  | outside none_saved => exact .outside none_saved
  | @inside above rest e before l none_saved fires called stays' lt _ ih =>
    have lower : .task (.setLevel c before) :: rest <:+ (x.run (n + 1)).stack :=
      (List.suffix_append _ _).trans stays
    refine .inside none_saved fires called ?_ (Nat.lt_succ_of_lt lt)
      (ih ((List.suffix_cons _ _).trans lower))
    intro i after before
    rcases Nat.le_succ_iff.mp before with earlier | rfl
    · exact stays' i after earlier
    · exact lower

theorem Levels.append (levels : x.Levels c n items v) {pushed : List (Item Obj)}
    (none_saved : pushed.filterMap (Item.restores? c) = []) :
    x.Levels c n (pushed ++ items) v := by
  cases levels with
  | outside no_level => exact .outside (by rw [List.filterMap_append, none_saved, no_level]; rfl)
  | inside no_level fires called stays lt outer =>
    rw [← List.append_assoc]
    refine .inside ?_ fires called stays lt outer
    rw [List.filterMap_append, none_saved, no_level]
    rfl

theorem Levels.tail {i : Item Obj} (levels : x.Levels c n (i :: rest) v)
    (none_saved : Item.restores? c i = none) : x.Levels c n rest v := by
  generalize split : i :: rest = items at levels
  cases levels with
  | outside no_level =>
    subst split
    rw [List.filterMap_cons_none none_saved] at no_level
    exact .outside no_level
  | @inside above rest' e before l no_level fires called stays lt outer =>
    rcases above with _ | ⟨j, above⟩
    · obtain ⟨rfl, _⟩ := List.cons.inj split
      simp [Item.restores?] at none_saved
    · obtain ⟨rfl, rfl⟩ := List.cons.inj split
      rw [List.filterMap_cons_none none_saved] at no_level
      exact .inside no_level fires called stays lt outer

theorem Levels.restored {before : UInt32}
    (levels : x.Levels c n (.task (.setLevel c before) :: rest) v) : x.Levels c n rest before := by
  generalize split : .task (.setLevel c before) :: rest = items at levels
  cases levels with
  | outside no_level =>
    subst split
    simp [Item.restores?] at no_level
  | @inside above rest' e before' l no_level fires called stays lt outer =>
    rcases above with _ | ⟨j, above⟩
    · obtain ⟨same, rfl⟩ := List.cons.inj split
      obtain ⟨_, rfl⟩ := Task.setLevel.inj (Item.task.inj same)
      exact outer
    · obtain ⟨rfl, rfl⟩ := List.cons.inj split
      simp [Item.restores?] at no_level

theorem none_saved_of_absent (blank : x.Blank) {n : Nat}
    (absent : (x.run n).world.context? c = none) :
    (x.run n).stack.filterMap (Item.restores? c) = [] := by
  induction n with
  | zero =>
    apply List.filterMap_eq_nil_iff.mpr
    intro i mem
    cases i with
    | task => exact absurd mem blank.task_notMem
    | code => rfl
  | succ n ih =>
    have outcome := (x.run_rewrites n).outcome c
    rw [absent] at outcome
    generalize before : (x.run n).world.context? c = o at outcome
    cases outcome with
    | absent =>
      have none_waits := ih before
      cases (x.run_rewrites n).relevels c with
      | fired fires =>
        obtain ⟨a, found, _⟩ := World.ready?_eq_some.mp fires.ready
        cases before.symm.trans found
      | restored top => simp [top, Item.restores?] at none_waits
      | kept stack none_saved same =>
        rw [stack, List.filterMap_append, none_saved, List.nil_append]
        rcases same with same | ⟨i, no_level, top⟩
        · rwa [same] at none_waits
        · rwa [top, List.filterMap_cons_none no_level] at none_waits

theorem exists_of_saved (blank : x.Blank) {n : Nat} {before : UInt32}
    (top : (x.run n).stack = .task (.setLevel c before) :: rest) :
    ((x.run n).world.context? c).isSome := by
  by_contra absent
  have none_waits := none_saved_of_absent blank (by simpa using absent)
  simp [top, Item.restores?] at none_waits

/-- At any moment the levels are those of the callbacks in progress. -/
theorem levels_run (blank : x.Blank) (c : ContextId) (n : Nat) :
    x.Levels c n (x.run n).stack ((x.run n).world.level c) := by
  induction n with
  | zero =>
    have level : (x.run 0).world.level c = 0 := by
      rw [run_zero, World.level, World.context?, blank.no_context]
      rfl
    have absent : (x.run 0).world.context? c = none := by
      rw [run_zero, World.context?, blank.no_context]
      rfl
    rw [level]
    exact .outside (none_saved_of_absent blank absent)
  | succ n ih =>
    cases (x.run_rewrites n).relevels c with
    | @fired e pre rest fires top stack none_saved level =>
      rw [top] at ih
      -- The level in effect so far waits below the callback, and the callback brings its own.
      have lower := (ih.tail rfl).succ (by rw [stack]; exact ⟨_ :: _ :: pre, rfl⟩)
      have stays : ∀ i, n < i → i ≤ n + 1 →
          .task (.setLevel c ((x.run n).world.level c)) :: (pre ++ rest) <:+ (x.run i).stack := by
        intro i after before
        rw [Nat.le_antisymm before after, stack]
        exact List.suffix_cons _ _
      have inner : x.Levels c (n + 1) ([.task (.call (Task.timerCall c e))] ++
          .task (.setLevel c ((x.run n).world.level c)) :: (pre ++ rest)) e.item.level :=
        .inside rfl fires stack stays (Nat.lt_succ_self n) (lower.append none_saved)
      rw [level, stack]
      exact inner
    | @restored before rest top stack level =>
      rw [level (exists_of_saved blank top), stack]
      rw [top] at ih
      exact ih.restored.succ ⟨[], stack.symm⟩
    | @kept pushed below stack none_saved same level =>
      have lower : x.Levels c n below ((x.run n).world.level c) := by
        rcases same with same | ⟨i, no_level, top⟩
        · rwa [same] at ih
        · exact (top ▸ ih).tail no_level
      rw [level, stack]
      exact (lower.succ (by rw [stack]; exact List.suffix_append _ _)).append none_saved

/-- The callback of the timer that has fired at `l`, or the report of what it has thrown, is in
progress. -/
structure InCallback (x : Execution E) (c : ContextId) (e : Entry TimerId Timer) (l n : Nat) :
    Prop where
  fires : (x.run l).Fires c e none
  lt : l < n
  unfinished : (x.run (l + 1)).Unfinished (n - (l + 1))

structure Innermost (x : Execution E) (c : ContextId) (e : Entry TimerId Timer) (l n : Nat) : Prop
    extends x.InCallback c e l n where
  last : ∀ l' e', x.InCallback c e' l' n → l' ≤ l

/-- The nesting level of the timer whose callback is innermost; zero outside of callbacks. -/
inductive NestedIn (x : Execution E) (c : ContextId) (n : Nat) : UInt32 → Prop
  | outside (no_callback : ∀ l e, ¬ x.InCallback c e l n) : NestedIn x c n 0
  | inside {e : Entry TimerId Timer} {l : Nat} (innermost : x.Innermost c e l n) :
      NestedIn x c n e.item.level

variable {e : Entry TimerId Timer} {l : Nat}

theorem Fires.saves (fires : (x.run l).Fires c e none) : ∃ before rest, (x.run (l + 1)).stack =
    .task (.call (Task.timerCall c e)) :: .task (.setLevel c before) :: rest := by
  obtain ⟨before, rest, _, stack, _⟩ := fires.stack (x.run_rewrites l)
  exact ⟨before, _, stack⟩

theorem InCallback.saves (progress : x.InCallback c e l n) : ∃ before pre rest,
    (x.run (l + 1)).stack =
      .task (.call (Task.timerCall c e)) :: .task (.setLevel c before) :: rest ∧
    (x.run n).stack = pre ++ .task (.setLevel c before) :: rest := by
  obtain ⟨before, rest, called⟩ := progress.fires.saves
  obtain ⟨j, pre, here⟩ := progress.unfinished.stack called
  rw [← run_add, Nat.add_sub_cancel' progress.lt] at here
  exact ⟨before, j :: pre, rest, called, here⟩

theorem Unfinished.confined {S : Task Obj → Prop} (keeps : Keeps τ S) {k : Call Obj}
    (leads : k.LeadsTo τ S) {base : List (Item Obj)} (top : x.stack = .task (.call k) :: base)
    (unfinished : x.Unfinished n) :
    ∃ pre, (x.run (n + 1)).stack = pre ++ base ∧ Confined τ S pre := by
  induction n with
  | zero =>
    have called := ((x.run_rewrites 0).of_call top).1
    have begins : Confined τ S ([] ++ .code k :: [].map .task) := .calling [] leads (by simp)
    exact ⟨[.code k], called, begins⟩
  | succ n ih =>
    obtain ⟨pre, here, confined⟩ := ih (unfinished.of_le (Nat.le_succ n))
    have more : pre ≠ [] := by
      rintro rfl
      have long := unfinished (n + 1) (Nat.le_refl _)
      rw [top, here] at long
      exact absurd long (Nat.not_succ_le_self _)
    exact (x.run_rewrites (n + 1)).confined keeps confined here more

/-- No other callback is called in the place of one that is in progress. -/
theorem InCallback.called_once {base : List (Item Obj)} {e' : Entry TimerId Timer} {m : Nat}
    (progress : x.InCallback c e l n)
    (called : (x.run (l + 1)).stack = .task (.call (Task.timerCall c e)) :: base) (after : l < m)
    (before : m < n) : (x.run (m + 1)).stack ≠ .task (.call (Task.timerCall c e')) :: base := by
  intro there
  obtain ⟨d, rfl⟩ := Nat.exists_eq_add_of_lt after
  have begins : (Task.call (Task.timerCall c e) : Task Obj).Leads := trivial
  obtain ⟨pre, here, confined⟩ :=
    (progress.unfinished.of_le (by omega : d ≤ n - (l + 1))).confined Task.keeps_trails
      begins.leadsTo called
  rw [← run_add, show l + 1 + (d + 1) = l + d + 1 + 1 by omega, there] at here
  obtain rfl : [.task (.call (Task.timerCall c e'))] = pre := List.append_cancel_right here
  obtain ⟨t, next, trails⟩ := confined.atTask there (List.cons_ne_nil _ _) rfl
  have same := next.unique ⟨base, there⟩
  rw [same] at trails
  exact trails

omit [Facility τ] [Traced Obj] in
theorem suffix_of_saved {above pre rest rest' : List (Item Obj)} {before before' : UInt32}
    (none_saved : above.filterMap (Item.restores? c) = [])
    (same : above ++ .task (.setLevel c before) :: rest =
      pre ++ .task (.setLevel c before') :: rest') :
    .task (.setLevel c before') :: rest' <:+ .task (.setLevel c before) :: rest := by
  rcases List.append_eq_append_iff.mp same with ⟨between, _, split⟩ | ⟨between, split, lower⟩
  · exact ⟨between, split.symm⟩
  · rcases between with _ | ⟨i, between⟩
    · exact ⟨[], lower⟩
    · exfalso
      obtain ⟨rfl, _⟩ := List.cons.inj lower
      rw [split] at none_saved
      simp [Item.restores?] at none_saved

theorem length_of_stays {before : UInt32} {m : Nat}
    (settled : ∀ before, ¬ (x.run n).AtTask (.setLevel c before))
    (stays : ∀ i, l < i → i ≤ n → .task (.setLevel c before) :: rest <:+ (x.run i).stack)
    (after : l < m) (le : m ≤ n) : rest.length + 2 ≤ (x.run m).stack.length := by
  have long := (stays m after le).length_le
  rw [List.length_cons] at long
  apply Nat.lt_of_le_of_ne long
  intro short
  have top : _ = (x.run m).stack := (stays m after le).eq_of_length (by simpa using short)
  rcases Nat.lt_or_eq_of_le le with lt | rfl
  · obtain ⟨p, stack, _⟩ := (x.run_rewrites m).of_task top.symm fun k same => nomatch same
    have past : (x.run (m + 1)).stack = rest := stack
    have lower := (stays (m + 1) (Nat.lt_succ_of_lt after) lt).length_le
    rw [past] at lower
    exact absurd lower (Nat.not_succ_le_self _)
  · exact settled before ⟨rest, top.symm⟩

/-- The innermost callback is the one that has saved the topmost level. -/
theorem Levels.nestedIn (levels : x.Levels c n (x.run n).stack v)
    (settled : ∀ before, ¬ (x.run n).AtTask (.setLevel c before)) : x.NestedIn c n v := by
  generalize here : (x.run n).stack = items at levels
  cases levels with
  | outside none_saved =>
    refine .outside fun l e progress => ?_
    obtain ⟨before, pre, rest, _, there⟩ := progress.saves
    rw [← here, there] at none_saved
    simp [Item.restores?] at none_saved
  | @inside above rest e before l none_saved fires called stays lt outer =>
    have progress : x.InCallback c e l n := by
      refine ⟨fires, lt, fun i le => ?_⟩
      rw [← run_add, called, List.length_cons, List.length_cons]
      exact length_of_stays settled stays (by omega) (by omega)
    refine .inside ⟨progress, fun l' e' progress' => ?_⟩
    by_contra later
    obtain ⟨before', pre, rest', called', there⟩ := progress'.saves
    have lower := suffix_of_saved none_saved (here.symm.trans there)
    have upper := stays (l' + 1) (by omega) progress'.lt
    rw [called'] at upper
    rcases List.suffix_cons_iff.mp upper with same | upper
    · cases (List.cons.inj same).1
    · have same := lower.eq_of_length_le upper.length_le
      rw [same] at called'
      exact progress.called_once called (by omega) progress'.lt called'

theorem nestedIn_run (blank : x.Blank)
    (settled : ∀ before, ¬ (x.run n).AtTask (.setLevel c before)) :
    x.NestedIn c n ((x.run n).world.level c) :=
  (levels_run blank c n).nestedIn settled

theorem NestedIn.unique {v v' : UInt32} (nested : x.NestedIn c n v) (nested' : x.NestedIn c n v') :
    v = v' := by
  cases nested with
  | outside none_there =>
    cases nested' with
    | outside => rfl
    | inside innermost => exact absurd innermost.toInCallback (none_there _ _)
  | inside innermost =>
    cases nested' with
    | outside none_there => exact absurd innermost.toInCallback (none_there _ _)
    | inside innermost' =>
      obtain rfl := Nat.le_antisymm (innermost'.last _ _ innermost.toInCallback)
        (innermost.last _ _ innermost'.toInCallback)
      have same := innermost.fires.next.unique innermost'.fires.next
      obtain ⟨_, keys, _⟩ := Task.fire.inj same
      have ready := innermost.fires.ready
      rw [keys, innermost'.fires.ready] at ready
      rw [Option.some.inj ready]

def levelAfter (x : Execution E) (c : ContextId) (pre : List (Item Obj)) : UInt32 :=
  (pre.filterMap (Item.restores? c)).foldl (fun _ before => before) (x.world.level c)

theorem levelAfter_succ (blank : x.Blank) {pre : List (Item Obj)}
    (here : (x.run n).stack = pre ++ rest) (more : pre ≠ []) : ∃ pre',
    (x.run (n + 1)).stack = pre' ++ rest ∧
      (x.run (n + 1)).levelAfter c pre' = (x.run n).levelAfter c pre := by
  obtain ⟨i, pre, rfl⟩ := List.exists_cons_of_ne_nil more
  cases (x.run_rewrites n).relevels c with
  | @fired e pushed below _ top stack none_saved level =>
    obtain ⟨rfl, rfl⟩ := List.cons.inj (here.symm.trans top)
    refine ⟨.task (.call (Task.timerCall c e)) ::
      .task (.setLevel c ((x.run n).world.level c)) :: (pushed ++ pre), by rw [stack]; simp, ?_⟩
    rw [levelAfter, levelAfter, List.filterMap_cons_none rfl,
      List.filterMap_cons_some (Item.restores?_setLevel c _), List.filterMap_append, none_saved,
      List.filterMap_cons_none rfl]
    rfl
  | @restored before below top stack level =>
    obtain ⟨rfl, rfl⟩ := List.cons.inj (here.symm.trans top)
    refine ⟨pre, stack, ?_⟩
    rw [levelAfter, levelAfter, level (exists_of_saved blank top),
      List.filterMap_cons_some (Item.restores?_setLevel c _)]
    rfl
  | @kept pushed below stack none_saved same level =>
    rcases same with same | ⟨i', no_level, top⟩
    · refine ⟨pushed ++ i :: pre, by rw [stack, ← same, here, List.append_assoc], ?_⟩
      rw [levelAfter, levelAfter, List.filterMap_append, none_saved, level, List.nil_append]
    · obtain ⟨rfl, rfl⟩ := List.cons.inj (here.symm.trans top)
      refine ⟨pushed ++ pre, by rw [stack]; exact (List.append_assoc _ _ _).symm, ?_⟩
      rw [levelAfter, levelAfter, List.filterMap_append, none_saved, level, List.nil_append,
        List.filterMap_cons_none no_level]

/-- Whatever is done with leaves the levels as it has found them. -/
theorem FinishesAt.level (blank : x.Blank) {m : Nat} {i : Item Obj}
    (finishes : (x.run m).FinishesAt n) (top : (x.run m).stack = i :: rest)
    (no_level : Item.restores? c i = none) :
    (x.run (m + n)).world.level c = (x.run m).world.level c := by
  -- What the level is once all that wait above `rest` are restored does not change.
  have kept : ∀ l ≤ n, ∃ pre, (x.run (m + l)).stack = pre ++ rest ∧
      (x.run (m + l)).levelAfter c pre = (x.run m).world.level c := by
    intro l
    induction l with
    | zero =>
      intro _
      refine ⟨[i], top, ?_⟩
      rw [levelAfter, List.filterMap_cons_none no_level]
      rfl
    | succ l ih =>
      intro lt
      obtain ⟨pre, here, same⟩ := ih (Nat.le_of_lt lt)
      have more : pre ≠ [] := by
        rintro rfl
        have long := finishes.1 l lt
        rw [← run_add, here, top] at long
        exact absurd long (Nat.not_succ_le_self _)
      obtain ⟨pre', there, after⟩ := levelAfter_succ (c := c) blank here more
      exact ⟨pre', there, after.trans same⟩
  obtain ⟨pre, here, same⟩ := kept n (Nat.le_refl n)
  have past := finishes.stack top
  rw [← run_add, here] at past
  obtain rfl : pre = [] := List.append_left_eq_self.mp past
  exact same

end Execution

end HostBridge
